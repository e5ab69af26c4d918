import Etheos.World.TimedSave

/-! How a timed save ends, depending on what of it fails. -/
namespace Etheos.TimedSaves

open General
open Guilds (Tag Name)

section Statements

variable {s : Server}

/-- The statements up to here are over. -/
def Server.skip (n : Nat) (s : Server) : Server :=
  { s with failures := { s.failures with statements := s.failures.statements.drop n } }

theorem skip_skip (m n : Nat) (s : Server) : (s.skip m).skip n = s.skip (m + n) := by
  unfold Server.skip
  dsimp only
  rw [List.drop_drop]

/-- Where nothing fails, statements leave the failures as they are. -/
theorem skip_of_never (h : s.failures = .never) (n : Nat) : s.skip n = s := by
  obtain ⟨db, failures, characters, guilds, entries, audited⟩ := s
  subst h
  show (⟨db, ⟨false, [].drop n, false, false⟩, characters, guilds, entries, audited⟩ : Server) = _
  rw [List.drop_nil]
  rfl

theorem query_ok (f : Tables → Tables) (h : s.failures.statements.head? ≠ some true) :
    query f s = .ok () { s.skip 1 with db := s.db.exec f } := by
  show (if s.failures.statements.head? = some true then _ else _ : Prog Unit) _ = _
  rw [if_neg h, Server.skip, List.drop_one]
  rfl

theorem query_error (f : Tables → Tables) (h : s.failures.statements.head? = some true) :
    query f s = .error .database (s.skip 1) := by
  show (if s.failures.statements.head? = some true then _ else _ : Prog Unit) _ = _
  rw [if_pos h, Server.skip, List.drop_one]
  rfl

theorem mem_take_succ (statements : List Bool) (n : Nat) :
    true ∈ statements.take (n + 1) ↔ statements.head? = some true ∨ true ∈ (statements.drop 1).take n := by
  cases statements with
  | nil => simp
  | cons first rest => simp [eq_comm]

theorem mem_take_add (statements : List Bool) (m n : Nat) :
    true ∈ statements.take (m + n) ↔ true ∈ statements.take m ∨ true ∈ (statements.drop m).take n := by
  rw [List.take_add, List.mem_append]

theorem saveCharacters_ok {names : List Name} (h : true ∉ s.failures.statements.take names.length) :
    saveCharacters names s = .ok () (s.skip names.length) := by
  induction names generalizing s with
  | nil => rfl
  | cons name rest ih =>
      obtain ⟨hFirst, hRest⟩ := not_or.mp (mt (mem_take_succ _ _).mpr h)
      have hQuery := query_ok id hFirst
      rw [Connection.exec_id] at hQuery
      refine (bind_of_ok hQuery).trans ((ih hRest).trans ?_)
      rw [List.length_cons, Nat.add_comm]
      exact congrArg _ (skip_skip 1 rest.length s)

theorem saveCharacters_error {names : List Name} (h : true ∈ s.failures.statements.take names.length) :
    ∃ s', saveCharacters names s = .error .database s' := by
  induction names generalizing s with
  | nil => cases h
  | cons name rest ih =>
      by_cases hFirst : s.failures.statements.head? = some true
      · exact ⟨_, bind_of_error (query_error id hFirst)⟩
      · have hQuery := query_ok id hFirst
        rw [Connection.exec_id] at hQuery
        obtain ⟨s', hRest⟩ := ih (s := s.skip 1) (((mem_take_succ _ _).mp h).resolve_left hFirst)
        exact ⟨s', (bind_of_ok hQuery).trans hRest⟩

end Statements

section Guilds

variable {s : Server}

/-- The guild is in memory and has changes that `Save` would store. -/
def dirty (guilds : Table Tag Guild) (tag : Tag) : Bool := (guilds.lookup tag).any (·.needsSave)

/-- The number of statements that saving the guilds takes. -/
def dirtyCount (guilds : Table Tag Guild) (tags : List Tag) : Nat := (tags.filter (dirty guilds ·)).length

/-- What is known of the tables and the guilds when the guilds with these tags are saved. -/
structure GuildsSaved (guilds : Table Tag Guild) (tags : List Tag) (f : Tables → Tables)
    (guilds' : Table Tag Guild) : Prop where
  audit : ∀ tables, (f tables).commandAudit = tables.commandAudit
  clean : ∀ tables tag, ¬(dirty guilds tag = true ∧ tag ∈ tags) →
    (f tables).guilds.lookup tag = tables.guilds.lookup tag
  rows : ∀ tables tag guild, guilds.lookup tag = some guild → guild.needsSave = true → tag ∈ tags →
    (f tables).guilds.lookup tag = (tables.guilds.lookup tag).map fun _ => guild.row
  guilds : ∀ tag, guilds'.lookup tag =
    (guilds.lookup tag).map fun guild => { guild with needsSave := guild.needsSave && !decide (tag ∈ tags) }

theorem saveGuild_none {tag : Tag} (hGuild : s.guilds.lookup tag = none) : saveGuild tag s = .ok () s := by
  refine (bind_of_ok rfl).trans ?_
  rw [hGuild]
  rfl

theorem saveGuild_some {tag : Tag} {guild : Guild} (hGuild : s.guilds.lookup tag = some guild) :
    saveGuild tag s = (if guild.needsSave then do
      query (·.updateGuild tag guild.row)
      modify fun s => { s with guilds := s.guilds.modify tag ({ · with needsSave := false }) }
    else return () : Prog Unit) s := by
  refine (bind_of_ok rfl).trans ?_
  rw [hGuild]

theorem saveGuild_clean {tag : Tag} (h : dirty s.guilds tag = false) : saveGuild tag s = .ok () s := by
  unfold dirty at h
  cases hGuild : s.guilds.lookup tag with
  | none => exact saveGuild_none hGuild
  | some guild =>
      rw [hGuild, Option.any_some] at h
      rw [saveGuild_some hGuild, h]
      rfl

/-- The guild is saved, and knows it. -/
def saveOne (tag : Tag) (guild : Guild) (s : Server) : Server :=
  { s.skip 1 with
    db := s.db.exec (·.updateGuild tag guild.row)
    guilds := s.guilds.modify tag ({ · with needsSave := false }) }

theorem saveGuild_dirty {tag : Tag} {guild : Guild} (hGuild : s.guilds.lookup tag = some guild)
    (hDirty : guild.needsSave = true) (h : s.failures.statements.head? ≠ some true) :
    saveGuild tag s = .ok () (saveOne tag guild s) := by
  rw [saveGuild_some hGuild, if_pos hDirty]
  exact bind_of_ok (query_ok _ h)

theorem exists_of_dirty {guilds : Table Tag Guild} {tag : Tag} (h : dirty guilds tag = true) :
    ∃ guild, guilds.lookup tag = some guild ∧ guild.needsSave = true := by
  unfold dirty at h
  cases hGuild : guilds.lookup tag with
  | none => rw [hGuild] at h; cases h
  | some guild => rw [hGuild] at h; exact ⟨guild, rfl, h⟩

theorem saveGuild_error {tag : Tag} (hDirty : dirty s.guilds tag = true)
    (h : s.failures.statements.head? = some true) : saveGuild tag s = .error .database (s.skip 1) := by
  obtain ⟨guild, hGuild, hNeeds⟩ := exists_of_dirty hDirty
  rw [saveGuild_some hGuild, if_pos hNeeds]
  exact bind_of_error (query_error _ h)

theorem dirty_saveOne {tag other : Tag} (hOther : other ≠ tag) (guild : Guild) (s : Server) :
    dirty (saveOne tag guild s).guilds other = dirty s.guilds other := by
  unfold dirty saveOne
  dsimp only
  rw [Table.lookup_modify, if_neg hOther]

theorem dirtyCount_congr {guilds guilds' : Table Tag Guild} {tags : List Tag}
    (h : ∀ tag ∈ tags, dirty guilds tag = dirty guilds' tag) : dirtyCount guilds tags = dirtyCount guilds' tags :=
  congrArg List.length (List.filter_congr h)

theorem dirtyCount_clean {guilds : Table Tag Guild} {tag : Tag} (hClean : dirty guilds tag = false) (rest : List Tag) :
    dirtyCount guilds (tag :: rest) = dirtyCount guilds rest := by
  rw [dirtyCount, List.filter_cons_of_neg (by simp [hClean]), dirtyCount]

theorem dirtyCount_dirty {tag : Tag} (hDirty : dirty s.guilds tag = true) {rest : List Tag} (hNew : tag ∉ rest)
    (guild : Guild) : dirtyCount s.guilds (tag :: rest) = dirtyCount (saveOne tag guild s).guilds rest + 1 := by
  rw [dirtyCount, List.filter_cons_of_pos (by simp [hDirty]), List.length_cons]
  refine congrArg (· + 1) (dirtyCount_congr fun other hOther => (dirty_saveOne ?_ guild s).symm)
  rintro rfl
  exact hNew hOther

theorem guildsSaved_nil (guilds : Table Tag Guild) : GuildsSaved guilds [] id guilds where
  audit _ := rfl
  clean _ _ _ := rfl
  rows _ _ _ _ _ hMem := by cases hMem
  guilds tag := by
    cases guilds.lookup tag with
    | none => rfl
    | some guild => simp

/-- A guild that need not be saved is passed over. -/
theorem GuildsSaved.pass {guilds guilds' : Table Tag Guild} {tag : Tag} {rest : List Tag} {f : Tables → Tables}
    (h : GuildsSaved guilds rest f guilds') (hClean : dirty guilds tag = false) :
    GuildsSaved guilds (tag :: rest) f guilds' where
  audit := h.audit
  clean tables other hOther := h.clean tables other fun hBoth =>
    hOther ⟨hBoth.1, List.mem_cons_of_mem _ hBoth.2⟩
  rows tables other guild hGuild hNeeds hMem := by
    rcases List.mem_cons.mp hMem with rfl | hRest
    · unfold dirty at hClean
      rw [hGuild, Option.any_some, hNeeds] at hClean
      cases hClean
    · exact h.rows tables other guild hGuild hNeeds hRest
  guilds other := by
    rw [h.guilds other]
    cases hGuild : guilds.lookup other with
    | none => rfl
    | some guild =>
        rw [Option.map_some, Option.map_some]
        by_cases hTag : other = tag
        · subst hTag
          unfold dirty at hClean
          rw [hGuild, Option.any_some] at hClean
          rw [hClean, Bool.false_and, Bool.false_and]
        · simp [hTag]

/-- One more guild is saved in front of the others. -/
theorem GuildsSaved.cons {guilds guilds' : Table Tag Guild} {tag : Tag} {guild : Guild} {rest : List Tag}
    {f : Tables → Tables} (h : GuildsSaved (guilds.modify tag ({ · with needsSave := false })) rest f guilds')
    (hGuild : guilds.lookup tag = some guild) (hNeeds : guild.needsSave = true) (hNew : tag ∉ rest) :
    GuildsSaved guilds (tag :: rest) (f ∘ (·.updateGuild tag guild.row)) guilds' where
  audit tables := h.audit _
  clean tables other hOther := by
    have hTag : other ≠ tag := by
      rintro rfl
      refine hOther ⟨?_, List.mem_cons_self⟩
      unfold dirty
      rw [hGuild, Option.any_some, hNeeds]
    have hFirst : (tables.updateGuild tag guild.row).guilds.lookup other = tables.guilds.lookup other := by
      show (tables.guilds.modify tag _).lookup other = _
      rw [Table.lookup_modify, if_neg hTag]
    refine (h.clean _ other fun hBoth => hOther ⟨?_, List.mem_cons_of_mem _ hBoth.2⟩).trans hFirst
    have hDirty := hBoth.1
    unfold dirty at hDirty
    rwa [Table.lookup_modify, if_neg hTag] at hDirty
  rows tables other guild' hGuild' hNeeds' hMem := by
    by_cases hTag : other = tag
    · subst hTag
      rw [hGuild] at hGuild'
      cases hGuild'
      refine (h.clean _ other fun hBoth => hNew hBoth.2).trans ?_
      show (tables.guilds.modify other _).lookup other = _
      rw [Table.lookup_modify, if_pos rfl]
    · have hRest : other ∈ rest := (List.mem_cons.mp hMem).resolve_left hTag
      refine (h.rows _ other guild' ?_ hNeeds' hRest).trans ?_
      · rw [Table.lookup_modify, if_neg hTag, hGuild']
      · show ((tables.guilds.modify tag _).lookup other).map _ = _
        rw [Table.lookup_modify, if_neg hTag]
  guilds other := by
    rw [h.guilds other, Table.lookup_modify]
    split
    case isTrue hTag =>
      subst hTag
      rw [hGuild]
      simp
    case isFalse hTag =>
      cases guilds.lookup other with
      | none => rfl
      | some guild => simp [hTag]

theorem saveGuilds_ok {tags : List Tag} (hTags : tags.Nodup)
    (h : true ∉ s.failures.statements.take (dirtyCount s.guilds tags)) :
    ∃ f guilds, GuildsSaved s.guilds tags f guilds ∧ saveGuilds tags s =
      .ok () { s.skip (dirtyCount s.guilds tags) with db := s.db.exec f, guilds } := by
  induction tags generalizing s with
  | nil =>
      refine ⟨id, s.guilds, guildsSaved_nil s.guilds, ?_⟩
      rw [Connection.exec_id]
      rfl
  | cons tag rest ih =>
      obtain ⟨hNew, hRest⟩ := List.nodup_cons.mp hTags
      cases hDirty : dirty s.guilds tag with
      | false =>
          rw [dirtyCount_clean hDirty] at h ⊢
          obtain ⟨f, guilds, hSaved, hRun⟩ := ih hRest h
          exact ⟨f, guilds, hSaved.pass hDirty, (bind_of_ok (saveGuild_clean hDirty)).trans hRun⟩
      | true =>
          obtain ⟨guild, hGuild, hNeeds⟩ := exists_of_dirty hDirty
          rw [dirtyCount_dirty hDirty hNew guild] at h ⊢
          obtain ⟨hFirst, hLater⟩ := not_or.mp (mt (mem_take_succ _ _).mpr h)
          obtain ⟨f, guilds, hSaved, hRun⟩ := ih (s := saveOne tag guild s) hRest hLater
          refine ⟨_, guilds, hSaved.cons hGuild hNeeds hNew, ?_⟩
          refine (bind_of_ok (saveGuild_dirty hGuild hNeeds hFirst)).trans (hRun.trans ?_)
          unfold saveOne
          rw [Connection.exec_exec, Nat.add_comm]
          unfold Server.skip
          dsimp only
          rw [List.drop_drop]

theorem saveGuilds_error {tags : List Tag} (hTags : tags.Nodup)
    (h : true ∈ s.failures.statements.take (dirtyCount s.guilds tags)) :
    ∃ s', saveGuilds tags s = .error .database s' := by
  induction tags generalizing s with
  | nil => cases h
  | cons tag rest ih =>
      obtain ⟨hNew, hRest⟩ := List.nodup_cons.mp hTags
      cases hDirty : dirty s.guilds tag with
      | false =>
          rw [dirtyCount_clean hDirty] at h
          obtain ⟨s', hRun⟩ := ih hRest h
          exact ⟨s', (bind_of_ok (saveGuild_clean hDirty)).trans hRun⟩
      | true =>
          by_cases hFirst : s.failures.statements.head? = some true
          · exact ⟨_, bind_of_error (saveGuild_error hDirty hFirst)⟩
          · obtain ⟨guild, hGuild, hNeeds⟩ := exists_of_dirty hDirty
            rw [dirtyCount_dirty hDirty hNew guild] at h
            obtain ⟨s', hRun⟩ := ih (s := saveOne tag guild s) hRest (((mem_take_succ _ _).mp h).resolve_left hFirst)
            exact ⟨s', (bind_of_ok (saveGuild_dirty hGuild hNeeds hFirst)).trans hRun⟩

end Guilds

section Audit

variable {s : Server}

/-- What is known of the rows that the loop inserts. -/
structure RowsInserted (entries : List AuditEntry) (failed : Prop) (rows : List AuditRow) : Prop where
  all : ¬failed → rows = entries.map (·.row)
  some : failed → rows.length < entries.length
  length : rows.length ≤ entries.length

theorem insertAudit_ok (entries : List AuditEntry) (s : Server) :
    ∃ rows, RowsInserted entries (true ∈ s.failures.statements.take entries.length) rows ∧ insertAudit entries s =
      .ok () { s.skip entries.length with db := s.db.exec (·.insertAudit rows) } := by
  induction entries generalizing s with
  | nil =>
      refine ⟨[], ⟨fun _ => rfl, nofun, Nat.le_refl 0⟩, ?_⟩
      have hNone : (·.insertAudit []) = (id : Tables → Tables) := by
        funext tables
        show { tables with commandAudit := tables.commandAudit ++ [] } = tables
        rw [List.append_nil]
      rw [hNone, Connection.exec_id]
      rfl
  | cons entry rest ih =>
      rw [List.length_cons, mem_take_succ]
      by_cases hFirst : s.failures.statements.head? = some true
      · obtain ⟨rows, hRows, hRun⟩ := ih (s.skip 1)
        have hEntry : tryCatch (query (·.insertAudit [entry.row])) (fun _ => return ()) s = .ok () (s.skip 1) :=
          tryCatch_of_error (query_error _ hFirst)
        refine ⟨rows, ⟨fun h => absurd (.inl hFirst) h, fun _ => ?_, ?_⟩, ?_⟩
        · exact Nat.lt_succ_of_le hRows.length
        · exact Nat.le_succ_of_le hRows.length
        · refine (bind_of_ok hEntry).trans (hRun.trans ?_)
          rw [skip_skip, Nat.add_comm]
          rfl
      · have hQuery := query_ok (·.insertAudit [entry.row]) hFirst
        obtain ⟨rows, hRows, hRun⟩ := ih { s.skip 1 with db := s.db.exec (·.insertAudit [entry.row]) }
        refine ⟨entry.row :: rows, ⟨fun h => ?_, fun h => ?_, ?_⟩, ?_⟩
        · rw [hRows.all fun hLater => h (.inr hLater), List.map_cons]
        · exact Nat.succ_lt_succ (hRows.some (h.resolve_left hFirst))
        · exact Nat.succ_le_succ hRows.length
        · refine (bind_of_ok (tryCatch_of_ok hQuery)).trans (hRun.trans ?_)
          have hBoth : Tables.insertAudit rows ∘ Tables.insertAudit [entry.row] =
              Tables.insertAudit (entry.row :: rows) := by
            funext tables
            show { tables with commandAudit := tables.commandAudit ++ [entry.row] ++ rows } = _
            rw [List.append_assoc]
            rfl
          rw [Connection.exec_exec, hBoth]
          unfold Server.skip
          dsimp only
          rw [List.drop_drop, Nat.add_comm]

theorem saveAll_ok (h : true ∉ s.failures.statements.take (dirtyCount s.guilds s.guilds.keys)) :
    ∃ f s', GuildsSaved s.guilds s.guilds.keys f s'.guilds ∧ s'.db = s.db.exec f ∧
      s'.failures = (s.skip (dirtyCount s.guilds s.guilds.keys)).failures ∧
      s'.commandAuditUncommitted = s.commandAuditUncommitted ∧ s'.audited = s.audited ∧
      saveAll s = .ok () s' := by
  obtain ⟨f, guilds, hSaved, hRun⟩ := saveGuilds_ok s.guilds.keys_nodup h
  exact ⟨f, { s.skip (dirtyCount s.guilds s.guilds.keys) with db := s.db.exec f, guilds }, hSaved,
    rfl, rfl, rfl, rfl, hRun⟩

theorem saveCommandAudit_ok (s : Server) :
    ∃ rows s', RowsInserted s.commandAuditUncommitted
        (true ∈ s.failures.statements.take s.commandAuditUncommitted.length) rows ∧
      s'.db = s.db.exec (·.insertAudit rows) ∧ s'.failures = (s.skip s.commandAuditUncommitted.length).failures ∧
      s'.guilds = s.guilds ∧ s'.commandAuditUncommitted = [] ∧ s'.audited = s.audited ∧
      saveCommandAudit s = .ok () s' := by
  obtain ⟨rows, hRows, hRun⟩ := insertAudit_ok s.commandAuditUncommitted s
  exact ⟨rows, { s.skip s.commandAuditUncommitted.length with
      db := s.db.exec (·.insertAudit rows)
      commandAuditUncommitted := [] }, hRows, rfl, rfl, rfl, rfl, rfl, bind_of_ok hRun⟩

end Audit

section Pending

variable {s : Server} {tables : Tables} {audited : List AuditRow}

/-- A transaction is open, and nothing of it is stored yet. -/
def Pending (tables : Tables) (audited : List AuditRow) (s : Server) : Prop :=
  s.db.stored = tables ∧ s.db.working.isSome = true ∧ s.audited = audited

theorem query_pending (f : Tables → Tables) : Keeps (Pending tables audited) (query f) := by
  refine Keeps.read fun s => Keeps.bind (Keeps.modify fun s hs => hs) fun _ => ?_
  refine Keeps.branch Keeps.raise (Keeps.modify fun s hs => ?_)
  obtain ⟨hStored, hWorking, hAudited⟩ := hs
  exact ⟨(Connection.stored_exec f hWorking).trans hStored, by simpa using hWorking, hAudited⟩

theorem saveCharacters_pending (names : List Name) : Keeps (Pending tables audited) (saveCharacters names) := by
  induction names with
  | nil => exact Keeps.ret
  | cons name rest ih => exact Keeps.bind (query_pending id) fun _ => ih

theorem saveGuild_pending (tag : Tag) : Keeps (Pending tables audited) (saveGuild tag) := by
  refine Keeps.read fun s => ?_
  cases s.guilds.lookup tag with
  | none => exact Keeps.ret
  | some guild =>
      exact Keeps.branch (Keeps.bind (query_pending _) fun _ => Keeps.modify fun s hs => hs) Keeps.ret

theorem saveGuilds_pending (tags : List Tag) : Keeps (Pending tables audited) (saveGuilds tags) := by
  induction tags with
  | nil => exact Keeps.ret
  | cons tag rest ih => exact Keeps.bind (saveGuild_pending tag) fun _ => ih

theorem saveAll_pending : Keeps (Pending tables audited) saveAll :=
  Keeps.read fun s => saveGuilds_pending s.guilds.keys

theorem insertAudit_pending (entries : List AuditEntry) : Keeps (Pending tables audited) (insertAudit entries) := by
  induction entries with
  | nil => exact Keeps.ret
  | cons entry rest ih =>
      exact Keeps.bind (Triple.handle (query_pending _) fun _ => Keeps.ret) fun _ => ih

theorem saveCommandAudit_pending : Keeps (Pending tables audited) saveCommandAudit :=
  Keeps.read fun s => Keeps.bind (insertAudit_pending s.commandAuditUncommitted) fun _ =>
    Keeps.modify fun _ hs => hs

theorem Pending.error {x : Prog Unit} (hKeeps : Keeps (Pending tables audited) x) (hs : Pending tables audited s)
    {e : Fault} {s' : Server} (hError : x s = .error e s') : Pending tables audited s' := by
  have h := hKeeps s hs
  rw [hError] at h
  exact h

/-- The server is new, and the tables are those of before. -/
structure Restarted (s next : Server) : Prop where
  stored : next.db.stored = s.db.stored
  idle : next.db.working = none
  guilds : next.guilds = ∅
  uncommitted : next.commandAuditUncommitted = []
  audited : next.audited = s.audited

/-- What `Cleanup` does in an open transaction is rolled back. -/
theorem Pending.cleanup {s next : Server} (h : Pending s.db.stored s.audited next) : Restarted s next.cleanup := by
  have hKeeps : Keeps (Pending s.db.stored s.audited) (do
      saveCommandAudit
      saveCharacters next.characters
      saveAll) :=
    Keeps.bind saveCommandAudit_pending fun _ => Keeps.bind (saveCharacters_pending _) fun _ => saveAll_pending
  have hNever : Pending s.db.stored s.audited { next with failures := .never } := h
  obtain ⟨hStored, -, hAudited⟩ := hKeeps.final hNever
  exact ⟨hStored, rfl, rfl, rfl, hAudited⟩

end Pending

section Outcome

variable {s : Server} {failures : Failures}

/-- The number of statements in front of those for the commands. -/
def Server.statements (s : Server) : Nat := s.characters.length + dirtyCount s.guilds s.guilds.keys

/-- The save got to its end, and was stored or rolled back. -/
structure Passed (s : Server) (failures : Failures) (next : Server) : Prop where
  begun : failures.begin = false
  statements : true ∉ failures.statements.take s.statements
  idle : next.db.working = none
  uncommitted : next.commandAuditUncommitted = []
  audited : next.audited = s.audited
  result : ∃ f rows, GuildsSaved s.guilds s.guilds.keys f next.guilds ∧
    RowsInserted s.commandAuditUncommitted
      (true ∈ (failures.statements.drop s.statements).take s.commandAuditUncommitted.length) rows ∧
    (failures.commit = false ∧ next.db.stored = (f s.db.stored).insertAudit rows ∨
      failures.commit = true ∧ failures.rollback = false ∧ next.db.stored = s.db.stored)

/-- The state in which the statements of the save begin. -/
def Server.begun (s : Server) (failures : Failures) : Server := { s with failures, db := s.db.begin }

/-- What follows the beginning of the transaction. -/
def saveBody (names : List Name) : Prog Unit := do
  saveCharacters names
  saveAll
  saveCommandAudit
  tryCatch commit fun _ => rollback

theorem timedSave_begun (hIdle : s.db.working = none) (hBegin : failures.begin = false) :
    timedSave { s with failures } = saveBody s.characters (s.begun failures) := by
  have hBegun : beginTransaction { s with failures } = .ok () (s.begun failures) := by
    show (if s.db.working.isSome then _ else if failures.begin then _ else _ : Prog Unit) _ = _
    rw [hIdle, hBegin]
    rfl
  exact bind_of_ok hBegun

theorem timedSave_terminated (hIdle : s.db.working = none) (hBegin : failures.begin = true) :
    s.timedSave failures = Server.restart { s with failures } := by
  have hRun : timedSave { s with failures } = .error .terminated { s with failures } := by
    refine bind_of_error ?_
    show (if s.db.working.isSome then _ else if failures.begin then _ else _ : Prog Unit) _ = _
    rw [hIdle, hBegin]
    rfl
  rw [Server.timedSave, hRun, Server.ended]

theorem saveBody_error (h : true ∈ failures.statements.take s.statements) :
    ∃ s', saveBody s.characters (s.begun failures) = .error .database s' := by
  by_cases hNames : true ∈ failures.statements.take s.characters.length
  · obtain ⟨s', hRun⟩ := saveCharacters_error (s := s.begun failures) hNames
    exact ⟨s', bind_of_error hRun⟩
  · have hGuilds := ((mem_take_add _ _ _).mp h).resolve_left hNames
    obtain ⟨s', hRun⟩ := saveGuilds_error (s := (s.begun failures).skip s.characters.length)
      s.guilds.keys_nodup hGuilds
    exact ⟨s', (bind_of_ok (saveCharacters_ok (s := s.begun failures) hNames)).trans (bind_of_error hRun)⟩

/-- Where the save throws, nothing is stored. -/
theorem saveBody_pending (names : List Name) {tables : Tables} {audited : List AuditRow} :
    Triple (Pending tables audited) (saveBody names) (fun _ _ => True) fun _ => Pending tables audited := by
  have hRollback : Triple (Pending tables audited) rollback (fun _ _ => True) fun _ => Pending tables audited :=
    Triple.read fun s hs => Triple.branch (fun _ => Triple.raise fun _ h => h ▸ hs)
      fun _ => Triple.modify fun _ _ => trivial
  have hCommit : Triple (Pending tables audited) commit (fun _ _ => True) fun _ => Pending tables audited :=
    Triple.read fun s hs => Triple.branch (fun _ => Triple.raise fun _ h => h ▸ hs)
      fun _ => Triple.modify fun _ _ => trivial
  refine (saveCharacters_pending names).seq (saveAll_pending.seq (saveCommandAudit_pending.seq ?_))
  exact hCommit.handle fun _ => hRollback

/-- The save up to its commit. -/
theorem saveBody_ok (h : true ∉ failures.statements.take s.statements) :
    ∃ f rows s', GuildsSaved s.guilds s.guilds.keys f s'.guilds ∧
      RowsInserted s.commandAuditUncommitted
        (true ∈ (failures.statements.drop s.statements).take s.commandAuditUncommitted.length) rows ∧
      s'.db = (s.db.begin.exec fun tables => (f tables).insertAudit rows) ∧
      s'.commandAuditUncommitted = [] ∧ s'.audited = s.audited ∧
      s'.failures.commit = failures.commit ∧ s'.failures.rollback = failures.rollback ∧
      saveBody s.characters (s.begun failures) = (tryCatch commit fun _ => rollback : Prog Unit) s' := by
  obtain ⟨hNames, hGuilds⟩ := not_or.mp (mt (mem_take_add _ _ _).mpr h)
  have hCharacters := saveCharacters_ok (s := s.begun failures) hNames
  obtain ⟨f, s₁, hSaved, hDb, hFailures, hEntries, hAudited, hAll⟩ :=
    saveAll_ok (s := (s.begun failures).skip s.characters.length) hGuilds
  obtain ⟨rows, s₂, hRows, hDb', hFailures', hSame, hNone, hAudited', hAudit⟩ := saveCommandAudit_ok s₁
  rw [skip_skip] at hFailures
  rw [hEntries, hFailures] at hRows
  refine ⟨f, rows, s₂, hSame ▸ hSaved, hRows, ?_, hNone, hAudited'.trans hAudited, ?_, ?_,
    (bind_of_ok hCharacters).trans ((bind_of_ok hAll).trans (bind_of_ok hAudit))⟩
  · rw [hDb', hDb, Connection.exec_exec]
    rfl
  · rw [hFailures', Server.skip, hFailures]
    rfl
  · rw [hFailures', Server.skip, hFailures]
    rfl

theorem commit_ok (hWorking : s.db.working.isSome = true) (hCommit : s.failures.commit = false) :
    commit s = .ok () { s with db := s.db.commit } := by
  show (if s.db.working.isNone ∨ s.failures.commit then _ else _ : Prog Unit) s = _
  rw [if_neg (by simp [hCommit, Option.isNone_iff_eq_none, ← Option.isSome_iff_ne_none, hWorking])]
  rfl

theorem commit_error (hCommit : s.failures.commit = true) : commit s = .error .database s := by
  show (if s.db.working.isNone ∨ s.failures.commit then _ else _ : Prog Unit) s = _
  rw [if_pos (.inr hCommit)]
  rfl

theorem rollback_ok (hWorking : s.db.working.isSome = true) (hRollback : s.failures.rollback = false) :
    rollback s = .ok () { s with db := s.db.rollback } := by
  show (if s.db.working.isNone ∨ s.failures.rollback then _ else _ : Prog Unit) s = _
  rw [if_neg (by simp [hRollback, Option.isNone_iff_eq_none, ← Option.isSome_iff_ne_none, hWorking])]
  rfl

theorem rollback_error (hRollback : s.failures.rollback = true) : rollback s = .error .database s := by
  show (if s.db.working.isNone ∨ s.failures.rollback then _ else _ : Prog Unit) s = _
  rw [if_pos (.inr hRollback)]
  rfl

/-- A timed save stops the server, or comes to its end. -/
theorem timedSave_outcome (hIdle : s.db.working = none) (failures : Failures) :
    Restarted s (s.timedSave failures) ∧ (failures.begin = true ∨ true ∈ failures.statements.take s.statements ∨
      failures.commit = true ∧ failures.rollback = true) ∨
    Passed s failures (s.timedSave failures) := by
  cases hBegin : failures.begin with
  | true =>
      refine .inl ⟨?_, .inl rfl⟩
      rw [timedSave_terminated hIdle hBegin]
      exact ⟨rfl, rfl, rfl, rfl, rfl⟩
  | false =>
      have hPending : Pending s.db.stored s.audited (s.begun failures) := ⟨rfl, rfl, rfl⟩
      have hThrown : ∀ {e s'}, saveBody s.characters (s.begun failures) = .error e s' →
          Pending s.db.stored s.audited s' := by
        intro e s' hError
        have h := saveBody_pending s.characters _ hPending
        rw [hError] at h
        exact h
      by_cases hFails : true ∈ failures.statements.take s.statements
      · obtain ⟨s', hError⟩ := saveBody_error hFails
        refine .inl ⟨?_, .inr (.inl hFails)⟩
        rw [Server.timedSave, timedSave_begun hIdle hBegin, hError]
        exact (hThrown hError).cleanup
      · obtain ⟨f, rows, s', hSaved, hRows, hDb, hNone, hAudited, hSame, hSame', hRun⟩ := saveBody_ok hFails
        have hWorking : s'.db.working.isSome = true := by
          rw [hDb, Connection.isSome_working_exec]
          rfl
        have hStored : s'.db.rollback.stored = s.db.stored := by
          rw [Connection.stored_rollback, hDb, Connection.stored_exec _ rfl]
          rfl
        have hEnd := congrArg Server.ended ((timedSave_begun hIdle hBegin).trans hRun)
        cases hCommit : failures.commit with
        | false =>
            rw [tryCatch_of_ok (commit_ok hWorking (hSame.trans hCommit))] at hEnd
            rw [Server.timedSave, hEnd]
            refine .inr ⟨hBegin, hFails, rfl, hNone, hAudited, f, rows, hSaved, hRows, .inl ⟨hCommit, ?_⟩⟩
            show s'.db.commit.stored = _
            rw [hDb]
            rfl
        | true =>
            have hError := commit_error (hSame.trans hCommit)
            cases hRollback : failures.rollback with
            | false =>
                rw [tryCatch_of_error hError, rollback_ok hWorking (hSame'.trans hRollback)] at hEnd
                rw [Server.timedSave, hEnd]
                exact .inr ⟨hBegin, hFails, rfl, hNone, hAudited, f, rows, hSaved, hRows,
                  .inr ⟨hCommit, hRollback, hStored⟩⟩
            | true =>
                have hThrows := rollback_error (hSame'.trans hRollback)
                rw [tryCatch_of_error hError, hThrows] at hEnd
                rw [Server.timedSave, hEnd]
                exact .inl ⟨(hThrown (hRun.trans ((tryCatch_of_error hError).trans hThrows))).cleanup,
                  .inr (.inr ⟨rfl, rfl⟩)⟩

end Outcome

end Etheos.TimedSaves
