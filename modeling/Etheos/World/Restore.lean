import Etheos.World.Dump

/-! What becomes of the records of a dump when the server starts. A record is taken off
the dump before the transaction is committed. -/
namespace Etheos.WorldDump

open Characters General General.Entries Stores

inductive Record where
  | character (c : CharacterRecord)
  | guild (g : GuildRecord)
  deriving Repr, DecidableEq

def Record.key : Record → Bytes ⊕ Bytes
  | .character c => .inl c.name
  | .guild g => .inr g.tag

def Dump.records (dump : Dump) : List Record :=
  dump.characters.map .character ++ dump.guilds.map .guild

/-- No two characters have one name, and no two guilds one tag. -/
def Dump.Distinct (dump : Dump) : Prop := (dump.records.map Record.key).Nodup

def restoreRecord (faults : Faults) (db : Tables) : Record → Verdict Tables
  | .character c => restoreCharacter faults db c
  | .guild g => restoreGuild faults db g

/-- What the database has for the key of a record. -/
def Tables.view (db : Tables) : Record → Option CharacterRow ⊕ Option GuildRow
  | .character c => .inl (db.characters c.name)
  | .guild g => .inr (db.guilds g.tag)

/-- The record is in the database, or a newer one is. -/
def Holds (db : Tables) : Record → Prop
  | .character c => ∃ row, db.characters c.name = some row ∧ (row.update c = row ∨ c.usage < row.usage)
  | .guild g => ∃ row, db.guilds g.tag = some row ∧ row.update g = row

def InFile : Option Dump → Record → Prop
  | none, _ => False
  | some dump, r => r ∈ dump.records

/-- A statement or the commit throws. -/
def Fails (faults : Faults) (db : Tables) (dump : Dump) : Prop :=
  (∃ r ∈ dump.records, (restoreRecord faults db r).throws = true) ∨ faults.commitThrows = true

/-- Something is thrown and caught, and before it a record has been taken off the dump
that the database does not have. -/
def Loses (faults : Faults) (db : Tables) (dump : Dump) : Prop :=
  faults.rollbackThrows = false ∧ Fails faults db dump ∧
    ∃ r, Handled (restoreRecord faults) db dump.records r ∧ ¬Holds db r

section Records

variable (faults : Faults)

/-- The two loops as one. -/
theorem restoreRecords_eq (db : Tables) (dump : Dump) :
    removeEach (restoreRecord faults) db dump.records =
      let done := restoreRecords faults db dump
      ⟨done.db, done.characters.map .character ++ done.guilds.map .guild, done.thrown⟩ := by
  have hCharacters : removeEach (fun db c => restoreRecord faults db (.character c)) db dump.characters =
      removeEach (restoreCharacter faults) db dump.characters := rfl
  rw [Dump.records, removeEach_append, removeEach_map]
  dsimp only
  rw [removeEach_map, restoreRecords, hCharacters]
  generalize removeEach (restoreCharacter faults) db dump.characters = cs
  obtain ⟨after, characters, thrown⟩ := cs
  cases thrown <;> rfl

theorem restoreCharacter_congr {db db' : Tables} {c : CharacterRecord}
    (h : db.characters c.name = db'.characters c.name) :
    (restoreCharacter faults db c).throws = (restoreCharacter faults db' c).throws ∧
      (restoreCharacter faults db c).erases = (restoreCharacter faults db' c).erases := by
  have hWritten : writtenCharacter db c = writtenCharacter db' c := by
    rw [writtenCharacter, writtenCharacter, h]
  unfold restoreCharacter
  rw [hWritten]
  cases faults.selectCharacter c.name with
  | throws => exact ⟨rfl, rfl⟩
  | error => exact ⟨rfl, rfl⟩
  | ok =>
      cases writtenCharacter db' c with
      | none => exact ⟨rfl, rfl⟩
      | some row => cases faults.writeCharacter c.name <;> exact ⟨rfl, rfl⟩

theorem restoreGuild_congr (db db' : Tables) (g : GuildRecord) :
    (restoreGuild faults db g).throws = (restoreGuild faults db' g).throws ∧
      (restoreGuild faults db g).erases = (restoreGuild faults db' g).erases := by
  unfold restoreGuild
  cases faults.selectGuild g.tag with
  | throws => exact ⟨rfl, rfl⟩
  | error => exact ⟨rfl, rfl⟩
  | ok =>
      cases faults.writeGuild g.tag with
      | throws => exact ⟨rfl, rfl⟩
      | error => exact ⟨rfl, rfl⟩
      | ok =>
          dsimp only
          split <;> exact ⟨rfl, rfl⟩

/-- What a character that is taken off leaves in the database. -/
theorem restoreCharacter_erase {db next : Tables} {c : CharacterRecord}
    (h : restoreCharacter faults db c = .erase next) :
    (writtenCharacter db c = none ∧ next = db) ∨
      ∃ row, writtenCharacter db c = some row ∧ next = db.putCharacter c.name row := by
  unfold restoreCharacter at h
  split at h
  · cases h
  · cases h
  · split at h
    case h_1 hNewer =>
      cases h
      exact .inl ⟨hNewer, rfl⟩
    case h_2 row hRow =>
      split at h
      · cases h
      · cases h
      · cases h
        exact .inr ⟨row, hRow, rfl⟩

theorem restoreGuild_erase {db next : Tables} {g : GuildRecord}
    (h : restoreGuild faults db g = .erase next) :
    next = db.putGuild g.tag (writtenGuild db g) := by
  unfold restoreGuild at h
  split at h
  · cases h
  · cases h
  · split at h
    · cases h
    · cases h
    · split at h
      · cases h
      · cases h
        rfl

/-- A record that is taken off changes nothing for other keys. -/
theorem restoreRecord_frame {db next : Tables} {r r' : Record}
    (h : restoreRecord faults db r = .erase next) (hKey : r.key ≠ r'.key) :
    next.view r' = db.view r' := by
  cases r with
  | character c =>
      obtain ⟨-, rfl⟩ | ⟨row, -, rfl⟩ := restoreCharacter_erase faults h
      · rfl
      · cases r' with
        | character c' =>
            have hName : c'.name ≠ c.name := fun hSame => hKey (congrArg Sum.inl hSame.symm)
            exact congrArg Sum.inl (Function.update_of_ne hName ..)
        | guild g => rfl
  | guild g =>
      obtain rfl := restoreGuild_erase faults h
      cases r' with
      | character c => rfl
      | guild g' =>
          have hTag : g'.tag ≠ g.tag := fun hSame => hKey (congrArg Sum.inr hSame.symm)
          exact congrArg Sum.inr (Function.update_of_ne hTag ..)

theorem restoreRecord_local : Local (restoreRecord faults) Record.key Tables.view where
  throws := by
    intro db db' r hView
    cases r with
    | character c => exact (restoreCharacter_congr faults (Sum.inl.inj hView)).1
    | guild g => exact (restoreGuild_congr faults db db' g).1
  erases := by
    intro db db' r hView
    cases r with
    | character c => exact (restoreCharacter_congr faults (Sum.inl.inj hView)).2
    | guild g => exact (restoreGuild_congr faults db db' g).2
  frame := fun _ _ _ _ h hKey => restoreRecord_frame faults h hKey

/-- A record that is taken off is in the database. -/
theorem restoreRecord_holds {db next : Tables} {r : Record}
    (h : restoreRecord faults db r = .erase next) : Holds next r := by
  cases r with
  | character c =>
      obtain ⟨hNewer, rfl⟩ | ⟨row, hRow, rfl⟩ := restoreCharacter_erase faults h
      · unfold writtenCharacter at hNewer
        split at hNewer
        · cases hNewer
        · next row hRow =>
            have hUsage : c.usage < row.usage := by
              by_contra hOlder
              rw [if_pos (by omega)] at hNewer
              cases hNewer
            exact ⟨row, hRow, .inr hUsage⟩
      · refine ⟨row, Function.update_self .., .inl ?_⟩
        unfold writtenCharacter at hRow
        split at hRow
        · cases hRow
          rfl
        · obtain ⟨-, hSome⟩ := Option.ite_none_right_eq_some.mp hRow
          cases hSome
          rfl
  | guild g =>
      obtain rfl := restoreGuild_erase faults h
      refine ⟨writtenGuild db g, Function.update_self .., ?_⟩
      unfold writtenGuild
      split <;> rfl

theorem holds_congr {db db' : Tables} {r : Record} (h : db.view r = db'.view r) :
    Holds db r ↔ Holds db' r := by
  cases r with
  | character c => rw [Holds, Holds, Sum.inl.inj h]
  | guild g => rw [Holds, Holds, Sum.inr.inj h]

theorem thrown_iff {db : Tables} {dump : Dump} (hDistinct : dump.Distinct) :
    (restoreRecords faults db dump).thrown = true ↔
      ∃ r ∈ dump.records, (restoreRecord faults db r).throws = true := by
  rw [← (restoreRecord_local faults).thrown_iff db hDistinct fun _ _ => rfl, restoreRecords_eq]

theorem failed_iff {db : Tables} {dump : Dump} (hDistinct : dump.Distinct) :
    failed faults db dump = true ↔ Fails faults db dump := by
  rw [failed, Bool.or_eq_true, thrown_iff faults hDistinct, Fails]

/-- The records that are left on the dump. -/
def Restored.left (done : Restored) : List Record :=
  done.characters.map .character ++ done.guilds.map .guild

theorem not_mem_left_iff {db : Tables} {dump : Dump} (hDistinct : dump.Distinct) {r : Record}
    (hr : r ∈ dump.records) :
    r ∉ (restoreRecords faults db dump).left ↔ Handled (restoreRecord faults) db dump.records r := by
  rw [← (restoreRecord_local faults).not_mem_left_iff db hDistinct (fun _ _ => rfl) hr, restoreRecords_eq]
  rfl

theorem stored_or_left {db : Tables} {dump : Dump} (hDistinct : dump.Distinct)
    (hDone : (restoreRecords faults db dump).thrown = false) {r : Record} (hr : r ∈ dump.records) :
    r ∈ (restoreRecords faults db dump).left ∨ Holds (restoreRecords faults db dump).db r := by
  have hKeeps : ∀ db next r r', restoreRecord faults db r = .erase next → r.key ≠ r'.key →
      Holds db r' → Holds next r' :=
    fun db next r r' h hKey hHolds => (holds_congr (restoreRecord_frame faults h hKey)).mpr hHolds
  have hStores : ∀ db next r, restoreRecord faults db r = .erase next → Holds next r :=
    fun _ _ _ => restoreRecord_holds faults
  have hAll := stored_of_unthrown hStores hKeeps hDistinct (by rwa [restoreRecords_eq])
  rw [restoreRecords_eq] at hAll
  exact hAll.1 r hr

end Records

section Distinct

theorem distinct_iff {dump : Dump} :
    dump.Distinct ↔ (dump.characters.map (·.name)).Nodup ∧ (dump.guilds.map (·.tag)).Nodup := by
  have hKeys : dump.records.map Record.key =
      (dump.characters.map (·.name)).map Sum.inl ++ (dump.guilds.map (·.tag)).map Sum.inr := by
    simp [Dump.records, Record.key, Function.comp_def]
  rw [Dump.Distinct, hKeys, List.nodup_append, List.nodup_map_iff Sum.inl_injective,
    List.nodup_map_iff Sum.inr_injective]
  simp

theorem upsertCharacters_nodup (new records : List CharacterRecord) (h : (records.map (·.name)).Nodup) :
    ((new.foldl upsertCharacter records).map (·.name)).Nodup := by
  induction new generalizing records with
  | nil => exact h
  | cons c rest ih => exact ih _ (nodup_replaced (·.name) c h)

theorem upsertGuilds_nodup (new records : List GuildRecord) (h : (records.map (·.tag)).Nodup) :
    ((new.foldl upsertGuild records).map (·.tag)).Nodup := by
  induction new generalizing records with
  | nil => exact h
  | cons g rest ih => exact ih _ (nodup_replaced (·.tag) g h)

/-- Every dump that is written has distinct keys, if the one it is merged with has. -/
theorem dumpToFile_distinct (characters : List CharacterRecord) (guilds : List GuildRecord)
    (maps : List GameMap) {existing : Option Dump} (h : ∀ dump ∈ existing, dump.Distinct) :
    (dumpToFile characters guilds maps existing).Distinct := by
  have hOld : (existing.getD ⟨[], [], [], []⟩).Distinct := by
    cases existing with
    | none => exact List.nodup_nil
    | some dump => exact h dump rfl
  obtain ⟨hNames, hTags⟩ := distinct_iff.mp hOld
  exact distinct_iff.mpr ⟨upsertCharacters_nodup _ _ hNames, upsertGuilds_nodup _ _ hTags⟩

theorem rewriteFile_distinct (faults : Faults) (db : Tables) {dump file : Dump} (h : dump.Distinct)
    (hFile : rewriteFile dump (restoreRecords faults db dump) = some file) : file.Distinct := by
  obtain ⟨-, hKept⟩ := Option.ite_none_left_eq_some.mp hFile
  obtain rfl := Option.some.inj hKept
  have hSub := removeEach_left (restoreRecord faults) db dump.records
  rw [restoreRecords_eq] at hSub
  exact h.sublist (hSub.map Record.key)

end Distinct

section Start

variable (faults : Faults)

theorem inFile_rewriteFile (dump : Dump) (done : Restored) (r : Record) :
    InFile (rewriteFile dump done) r ↔ r ∈ done.left := by
  unfold rewriteFile
  split
  case isTrue hEmpty =>
    rw [Restored.left, hEmpty.1, hEmpty.2]
    simp [InFile]
  case isFalse => rfl

variable (maps : List GameMap)

/-- What a start does: nothing, or all but the database, or everything. -/
theorem restoreFromDump_cases {db : Tables} {dump : Dump} (hDistinct : dump.Distinct) :
    (Fails faults db dump ∧ faults.rollbackThrows = true ∧
      restoreFromDump faults ⟨db, maps, some dump⟩ = ⟨db, maps, some dump⟩) ∨
    (Fails faults db dump ∧ faults.rollbackThrows = false ∧
      restoreFromDump faults ⟨db, maps, some dump⟩ =
        ⟨db, restoreMapState dump maps, rewriteFile dump (restoreRecords faults db dump)⟩) ∨
    (¬Fails faults db dump ∧
      restoreFromDump faults ⟨db, maps, some dump⟩ =
        ⟨(restoreRecords faults db dump).db, restoreMapState dump maps,
          rewriteFile dump (restoreRecords faults db dump)⟩) := by
  by_cases hFailed : Fails faults db dump
  · have hTrue := (failed_iff faults hDistinct).mpr hFailed
    cases hRollback : faults.rollbackThrows with
    | true => exact .inl ⟨hFailed, rfl, by simp [restoreFromDump, escapes, hTrue, hRollback]⟩
    | false => exact .inr (.inl ⟨hFailed, rfl, by simp [restoreFromDump, escapes, hTrue, hRollback]⟩)
  · have hFalse := Bool.eq_false_iff.mpr fun hTrue => hFailed ((failed_iff faults hDistinct).mp hTrue)
    exact .inr (.inr ⟨hFailed, by simp [restoreFromDump, escapes, hFalse]⟩)

end Start

def quiet : Faults := ⟨fun _ => .ok, fun _ => .ok, fun _ => .ok, fun _ => .ok, fun _ => false, false, false⟩

def noTables : Tables := ⟨fun _ => none, fun _ => none⟩

/-- Two characters, and the name of the second one is refused. -/
def twoCharacters : Dump := ⟨[⟨[97], [97], 3, []⟩, ⟨[98], [98], 5, []⟩], [], [], []⟩

def secondThrows : Faults := { quiet with writeCharacter := fun name => if name = [98] then .throws else .ok }

end Etheos.WorldDump
