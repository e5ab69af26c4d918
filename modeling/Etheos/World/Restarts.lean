import Etheos.General.Run
import Etheos.World.Restore

/-! Starts of the server one after the other, with the dump file that each one leaves for
the next. What lies on the maps is put back before it is known whether the file goes. -/
namespace Etheos.WorldDump

open Characters General General.Entries Stores

/-- An entry of the map state. -/
inductive Entry where
  | item (i : ItemRecord)
  | chest (c : ChestRecord)
  deriving Repr, DecidableEq

def Dump.entries (dump : Dump) : List Entry := dump.items.map .item ++ dump.chests.map .chest

def restoreEntry (maps : List GameMap) : Entry → List GameMap
  | .item i => restoreItem maps i
  | .chest c => restoreChest maps c

def putsBackChest (c : ChestRecord) (map : GameMap) : Bool :=
  match map.chests.find? (fun chest => chest.x = c.x ∧ chest.y = c.y) with
  | none => false
  | some chest => (c.add chest).2 ≠ 0

/-- The entry finds its map, and a chest takes it. -/
def putsBack (maps : List GameMap) : Entry → Bool
  | .item i => (maps.find? (·.id = i.mapId)).isSome
  | .chest c => (maps.find? (·.id = c.mapId)).any (putsBackChest c)

/-- The entries that are put back. -/
def putBack : List GameMap → List Entry → List Entry
  | _, [] => []
  | maps, e :: rest =>
      if putsBack maps e then e :: putBack (restoreEntry maps e) rest
      else putBack (restoreEntry maps e) rest

section Entries

theorem restoreMapState_eq (dump : Dump) (maps : List GameMap) :
    restoreMapState dump maps = dump.entries.foldl restoreEntry maps := by
  rw [Dump.entries, List.foldl_append, List.foldl_map, List.foldl_map]
  rfl

theorem add_of_zero {c : ChestRecord} {chest : MapChest} (h : (c.add chest).2 = 0) :
    (c.add chest).1 = chest := by
  unfold ChestRecord.add at h ⊢
  obtain hFull | ⟨hPos, -, it, -, -, -, hMerged⟩ | ⟨hPos, -, -, -, -, hUser⟩ | ⟨hPos, -, -, hSpawned⟩ :=
    chest.addItem_cases (toShort c.itemId) (toInt c.amount) (toInt c.slot)
  · rw [hFull]
  · rw [hMerged] at h
    exact absurd h (Int.ne_of_gt hPos)
  · rw [hUser] at h
    exact absurd h (Int.ne_of_gt hPos)
  · rw [hSpawned] at h
    exact absurd h (Int.ne_of_gt hPos)

/-- An entry that is not put back changes nothing. -/
theorem restoreEntry_of_not_putsBack {maps : List GameMap} {e : Entry} (h : putsBack maps e = false) :
    restoreEntry maps e = maps := by
  cases e with
  | item i => exact modifyFirst_of_missing (Option.isSome_eq_false_iff.mp h |> Option.isNone_iff_eq_none.mp) _
  | chest c =>
      refine modifyFirst_same fun map hMap => ?_
      rw [putsBack, hMap, Option.any_some, putsBackChest] at h
      have hChests : modifyFirst (fun chest => chest.x = c.x ∧ chest.y = c.y) (fun chest => (c.add chest).1)
          map.chests = map.chests := by
        refine modifyFirst_same fun chest hChest => add_of_zero ?_
        rw [hChest] at h
        exact of_not_not (of_decide_eq_false h)
      rw [hChests]

end Entries

/-- `history` are the entries that each start has put back. -/
structure Restarts where
  db : Tables
  file : Option Dump
  history : List (List Entry)

/-- A start with freshly loaded maps, and what the server does to the database. -/
inductive RestartEvent where
  | start (faults : Faults) (maps : List GameMap)
  | play (db : Tables)

namespace Restarts

def new (db : Tables) (dump : Dump) : Restarts := ⟨db, some dump, []⟩

def putBackBy (s : Restarts) (faults : Faults) (maps : List GameMap) : List Entry :=
  match s.file with
  | none => []
  | some dump => if escapes faults s.db dump then [] else putBack maps dump.entries

def step (s : Restarts) : RestartEvent → Option Restarts
  | .start faults maps =>
      let next := restoreFromDump faults ⟨s.db, maps, s.file⟩
      some ⟨next.db, next.file, s.history ++ [s.putBackBy faults maps]⟩
  | .play db => some { s with db := db }

/-- No entry has been put back by two starts. -/
def AtMostOnce (s : Restarts) : Prop := ∀ e, (s.history.countP (e ∈ ·)) ≤ 1

/-- The map state is put back, and a record stays on the dump. -/
def Partly (s : Restarts) : RestartEvent → Prop
  | .start faults _ =>
      ∃ dump ∈ s.file, dump.entries ≠ [] ∧ ¬(Fails faults s.db dump ∧ faults.rollbackThrows = true) ∧
        ∃ r ∈ dump.records, ¬Handled (restoreRecord faults) s.db dump.records r
  | .play _ => False

instance (faults : Faults) (db : Tables) (dump : Dump) : Decidable (Fails faults db dump) :=
  inferInstanceAs (Decidable (_ ∨ _))

instance (s : Restarts) : (event : RestartEvent) → Decidable (s.Partly event)
  | .start faults _ =>
      inferInstanceAs (Decidable (∃ dump ∈ s.file, dump.entries ≠ [] ∧
        ¬(Fails faults s.db dump ∧ faults.rollbackThrows = true) ∧
        ∃ r ∈ dump.records, ¬Handled (restoreRecord faults) s.db dump.records r))
  | .play _ => isFalse id

/-- A file that is there has put nothing back. -/
structure Kept (s : Restarts) : Prop where
  once : s.AtMostOnce
  distinct : ∀ dump ∈ s.file, dump.Distinct
  unused : ∀ dump ∈ s.file, dump.entries ≠ [] → ∀ entries ∈ s.history, entries = []

section Steps

theorem atMostOnce_append {history : List (List Entry)} {entries : List Entry}
    (hUnused : entries ≠ [] → ∀ old ∈ history, old = []) (hOnce : ∀ e, history.countP (e ∈ ·) ≤ 1)
    (e : Entry) : (history ++ [entries]).countP (e ∈ ·) ≤ 1 := by
  rw [List.countP_append, List.countP_singleton]
  by_cases hMem : e ∈ entries
  · have hNone : history.countP (e ∈ ·) = 0 := by
      refine List.countP_eq_zero.mpr fun old hOld => ?_
      rw [hUnused (List.ne_nil_of_mem hMem) old hOld]
      simp
    rw [hNone]
    split <;> omega
  · have hOld := hOnce e
    simp only [hMem, decide_false, Bool.false_eq_true, if_false]
    omega

/-- A record stays on the dump whenever the file does. -/
theorem exists_unhandled {faults : Faults} {db : Tables} {dump file : Dump} (hDistinct : dump.Distinct)
    (hFile : rewriteFile dump (restoreRecords faults db dump) = some file) :
    ∃ r ∈ dump.records, ¬Handled (restoreRecord faults) db dump.records r := by
  obtain ⟨hLeft, -⟩ := Option.ite_none_left_eq_some.mp hFile
  have hSome : (restoreRecords faults db dump).left ≠ [] := by
    simpa [Restored.left] using hLeft
  obtain ⟨r, hr⟩ := List.exists_mem_of_ne_nil _ hSome
  have hSub := removeEach_left (restoreRecord faults) db dump.records
  rw [restoreRecords_eq] at hSub
  have hRecord : r ∈ dump.records := hSub.subset hr
  exact ⟨r, hRecord, fun hHandled => (not_mem_left_iff faults hDistinct hRecord).mpr hHandled hr⟩

/-- What a start does: nothing, or it puts back the map state and writes the file anew. -/
theorem start_cases {s next : Restarts} {faults : Faults} {maps : List GameMap}
    (h : s.step (.start faults maps) = some next) :
    (next.file = s.file ∧ next.history = s.history ++ [[]]) ∨
      ∃ dump ∈ s.file, escapes faults s.db dump = false ∧
        next.file = rewriteFile dump (restoreRecords faults s.db dump) ∧
        next.history = s.history ++ [putBack maps dump.entries] := by
  obtain ⟨db, file, history⟩ := s
  obtain rfl := Option.some.inj h
  cases file with
  | none => exact .inl ⟨rfl, rfl⟩
  | some dump =>
      cases hEscapes : escapes faults db dump with
      | true =>
          refine .inl ⟨?_, ?_⟩
          · simp [restoreFromDump, hEscapes]
          · simp [putBackBy, hEscapes]
      | false =>
          refine .inr ⟨dump, rfl, hEscapes, ?_, ?_⟩
          · simp [restoreFromDump, hEscapes]
          · simp [putBackBy, hEscapes]

/-- A start that puts nothing back. -/
theorem Kept.idle {s next : Restarts} (h : s.Kept) (hFile : next.file = s.file)
    (hHistory : next.history = s.history ++ [[]]) : next.Kept where
  once := by
    rw [AtMostOnce, hHistory]
    exact atMostOnce_append (fun hSome => absurd rfl hSome) h.once
  distinct := hFile ▸ h.distinct
  unused := by
    intro dump hDump hEntries entries hMem
    rw [hHistory] at hMem
    rcases List.mem_append.mp hMem with hOld | hNew
    · exact h.unused dump (hFile ▸ hDump) hEntries entries hOld
    · exact List.mem_singleton.mp hNew

theorem step_kept (s : Restarts) (event : RestartEvent) (next : Restarts) (h : s.Kept)
    (hGood : ¬s.Partly event) (hStep : s.step event = some next) : next.Kept := by
  cases event with
  | play db =>
      obtain rfl := Option.some.inj hStep
      exact ⟨h.once, h.distinct, h.unused⟩
  | start faults maps =>
      obtain ⟨hFile, hHistory⟩ | ⟨dump, hDump, hEscapes, hFile, hHistory⟩ := start_cases hStep
      · exact h.idle hFile hHistory
      · have hDistinct := h.distinct dump hDump
        have hCaught : ¬(Fails faults s.db dump ∧ faults.rollbackThrows = true) := by
          rw [← failed_iff faults hDistinct, ← Bool.and_eq_true]
          exact Bool.eq_false_iff.mp hEscapes
        -- the file stays only where the map state is empty
        have hEmpty : ∀ file ∈ next.file, file.entries = [] := by
          intro file hKept
          have hRewritten := hFile.symm.trans hKept
          obtain ⟨-, hSame⟩ := Option.ite_none_left_eq_some.mp hRewritten
          obtain rfl := Option.some.inj hSame
          by_contra hEntries
          exact hGood ⟨dump, hDump, hEntries, hCaught, exists_unhandled hDistinct hRewritten⟩
        constructor
        · rw [AtMostOnce, hHistory]
          refine atMostOnce_append (fun hSome => h.unused dump hDump fun hNone => hSome ?_) h.once
          rw [hNone, putBack]
        · intro file hKept
          exact rewriteFile_distinct faults s.db hDistinct (hFile.symm.trans hKept)
        · intro file hKept hEntries
          exact absurd (hEmpty file hKept) hEntries

end Steps

/-- What lies on the maps is put back once in every run in which no start leaves a record
on the dump after it has put back the map state. -/
theorem atMostOnce_of_avoids (db : Tables) {dump : Dump} (hDistinct : dump.Distinct)
    {events : List RestartEvent} (hAvoids : General.Avoids step Partly (new db dump) events) :
    General.Always step AtMostOnce (new db dump) events := by
  have hStart : (new db dump).Kept := by
    constructor
    · exact fun e => Nat.zero_le 1
    · intro file hFile
      obtain rfl := Option.some.inj hFile
      exact hDistinct
    · intro _ _ _ entries hMem
      cases hMem
  exact (General.always_of_avoids step_kept hStart hAvoids).mono fun _ => Kept.once

/-- A character, and an item on a map. -/
def itemDump : Dump := ⟨[⟨[97], [97], 3, []⟩], [], [⟨4, 1, 2, 7, 5, 1⟩], []⟩

def itemMap : List GameMap := [⟨4, [], []⟩]

theorem atMostOnce_of_avoids_twoStarts :
    itemDump.Distinct ∧
      General.Always step AtMostOnce (new noTables itemDump) [.start quiet itemMap, .start quiet itemMap] := by
  have hDistinct : itemDump.Distinct := by unfold Dump.Distinct; decide
  exact ⟨hDistinct, atMostOnce_of_avoids noTables hDistinct (by decide)⟩

def selectFails : Faults := { quiet with selectCharacter := fun _ => .error }

/-- The character cannot be looked up, and the item is put back twice. -/
theorem not_atMostOnce_selectFails :
    ¬General.Always step AtMostOnce (new noTables itemDump)
      [.start selectFails itemMap, .start quiet itemMap] := by
  intro h
  have hEnd := h _ _ (List.prefix_refl _) rfl
  exact absurd (hEnd (.item ⟨4, 1, 2, 7, 5, 1⟩)) (by decide)

end Restarts

end Etheos.WorldDump
