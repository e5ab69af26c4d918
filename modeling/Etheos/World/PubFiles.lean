import Etheos.Character.World
import Etheos.Config.Config
import Etheos.General.Run
import Mathlib.Data.List.Chain

/-! What the world keeps of each NPC of the NPC file, when the file is read again. -/
namespace Etheos.PubFiles

open Characters (toShort)
open ConfigFiles (bytes)
open General

/-- The records of the file, of which the names are looked at. -/
structure NpcFile where
  names : List Bytes

/-- `data.size()` after `ENF::Read`. Nothing is at the place 0, and a record that marks the end is dropped. -/
def NpcFile.dataSize (file : NpcFile) : Nat :=
  if file.names.getLast? = some (bytes "eof".toList) then file.names.length else file.names.length + 1

/-- `loaded` says that `Load` has been called. -/
structure NpcData where
  id : Int
  loaded : Bool
  deriving DecidableEq

def NpcData.load (data : NpcData) : NpcData := { data with loaded := true }

/-- The constructor. -/
def NpcData.new (id : Int) : NpcData := NpcData.load ⟨id, false⟩

/-- A pointer that is null is `none`. -/
structure State where
  enfSize : Nat
  npcData : List (Option NpcData)

/-- The constructor of the world. -/
def construct (file : NpcFile) : State where
  enfSize := file.dataSize
  npcData := (List.range file.dataSize).map fun i : Nat =>
    let npc := NpcData.new (toShort i)
    some (if npc.id ≠ 0 then npc.load else npc)

def resize (npcData : List (Option NpcData)) (size : Nat) : List (Option NpcData) :=
  npcData.take size ++ List.replicate (size - npcData.length) none

/-- The loop of `ReloadPub`. There is no going on from a null pointer. -/
def loadFrom (npcData : List (Option NpcData)) (i : Nat) : Nat → Option (List (Option NpcData))
  | 0 => some npcData
  | count + 1 =>
      match npcData[i]? with
      | some (some data) => loadFrom (npcData.set i (some data.load)) (i + 1) count
      | _ => none

def reloadPub (s : State) (file : NpcFile) : Option State := do
  let npcData ← loadFrom (resize s.npcData file.dataSize) s.npcData.length (file.dataSize - s.npcData.length)
  return ⟨file.dataSize, npcData⟩

def getNpcData (npcData : List (Option NpcData)) (id : Int) : Option NpcData :=
  (if 0 ≤ id ∧ id < npcData.length then npcData[id.toNat]? else npcData[0]?).join

/-- There is an object for each NPC, and one for every id. -/
structure Complete (s : State) : Prop where
  size : s.npcData.length = s.enfSize
  own : ∀ i < s.npcData.length, ∃ data, s.npcData[i]? = some (some data) ∧ data.loaded ∧ data.id = i
  answers : ∀ id, ∃ data, getNpcData s.npcData id = some data ∧ data.loaded

/-- The file can be read again, and again. -/
def StaysComplete (s : State) (files : List NpcFile) : Prop :=
  ∀ done, done <+: files → ∃ s', run reloadPub s done = some s' ∧ Complete s'

section Entries

variable {s : State} {file : NpcFile}

theorem dataSize_pos (file : NpcFile) : 0 < file.dataSize := by
  unfold NpcFile.dataSize
  split
  case isTrue hEof => exact List.length_pos_of_mem (List.mem_of_getLast? hEof)
  case isFalse => exact Nat.succ_pos _

/-- Whatever is asked for, there is an answer when every entry is there. -/
theorem answers_of_own {npcData : List (Option NpcData)} (hSome : 0 < npcData.length)
    (hOwn : ∀ i < npcData.length, ∃ data, npcData[i]? = some (some data) ∧ data.loaded ∧ data.id = i) (id : Int) :
    ∃ data, getNpcData npcData id = some data ∧ data.loaded := by
  unfold getNpcData
  split
  case isTrue hInside =>
    obtain ⟨data, hData, hLoaded, -⟩ := hOwn id.toNat (by omega)
    exact ⟨data, by rw [hData, Option.join_some], hLoaded⟩
  case isFalse =>
    obtain ⟨data, hData, hLoaded, -⟩ := hOwn 0 hSome
    exact ⟨data, by rw [hData, Option.join_some], hLoaded⟩

theorem construct_entry {i : Nat} (hi : i < file.dataSize) :
    (construct file).npcData[i]? = some (some ⟨toShort i, true⟩) := by
  simp [construct, hi, NpcData.new, NpcData.load]

theorem toShort_id {n : Int} (hMin : 0 ≤ n) (hMax : n < 32768) : toShort n = n :=
  Int.bmod_eq_of_le (by omega) (by omega)

/-- The ids of the first entries are their places. -/
theorem construct_complete_iff (file : NpcFile) : Complete (construct file) ↔ file.dataSize ≤ 32768 := by
  have hLength : (construct file).npcData.length = file.dataSize := by simp [construct]
  constructor
  · intro h
    by_contra hMore
    obtain ⟨i, hi⟩ : ∃ i : Nat, i = 32768 := ⟨_, rfl⟩
    obtain ⟨data, hData, -, hId⟩ := h.own i (by omega)
    rw [construct_entry (by omega)] at hData
    rw [← Option.some.inj (Option.some.inj hData)] at hId
    have hSmall : toShort i < 32768 := Int.bmod_lt (by decide)
    dsimp only at hId
    omega
  · intro hFew
    have hOwn : ∀ i < (construct file).npcData.length,
        ∃ data, (construct file).npcData[i]? = some (some data) ∧ data.loaded ∧ data.id = i := by
      intro i hi
      rw [hLength] at hi
      refine ⟨⟨toShort i, true⟩, construct_entry hi, rfl, ?_⟩
      dsimp only
      exact toShort_id (by omega) (by omega)
    exact ⟨hLength, hOwn, answers_of_own (hLength ▸ dataSize_pos file) hOwn⟩

theorem reload_smaller (h : Complete s) (hLess : file.dataSize ≤ s.enfSize) :
    ∃ s', reloadPub s file = some s' ∧ Complete s' ∧ s'.enfSize = file.dataSize := by
  have hSize := h.size
  have hNone : file.dataSize - s.npcData.length = 0 := by omega
  have hResize : resize s.npcData file.dataSize = s.npcData.take file.dataSize := by simp [resize, hNone]
  have hLength : (s.npcData.take file.dataSize).length = file.dataSize := by
    rw [List.length_take]
    omega
  have hOwn : ∀ i < (s.npcData.take file.dataSize).length,
      ∃ data, (s.npcData.take file.dataSize)[i]? = some (some data) ∧ data.loaded ∧ data.id = i := by
    intro i hi
    rw [hLength] at hi
    rw [List.getElem?_take_of_lt hi]
    exact h.own i (by omega)
  refine ⟨⟨file.dataSize, s.npcData.take file.dataSize⟩, ?_, ⟨hLength, hOwn, ?_⟩, rfl⟩
  · rw [reloadPub, hNone, hResize]
    rfl
  · apply answers_of_own _ hOwn
    rw [hLength]
    exact dataSize_pos file

/-- The first entry that is new is null. -/
theorem reload_larger (h : Complete s) (hMore : s.enfSize < file.dataSize) : reloadPub s file = none := by
  have hSize := h.size
  obtain ⟨count, hCount⟩ : ∃ count, file.dataSize - s.npcData.length = count + 1 :=
    ⟨file.dataSize - s.npcData.length - 1, by omega⟩
  have hNull : (resize s.npcData file.dataSize)[s.npcData.length]? = some none := by
    rw [resize, List.take_of_length_le (by omega), hCount]
    simp
  rw [reloadPub, hCount, loadFrom, hNull]
  rfl

theorem staysComplete_iff (h : Complete s) (files : List NpcFile) :
    StaysComplete s files ↔ (s.enfSize :: files.map NpcFile.dataSize).IsChain (· ≥ ·) := by
  induction files generalizing s with
  | nil =>
      rw [List.map_nil, iff_true_right (List.isChain_singleton _)]
      intro done hDone
      obtain rfl := List.prefix_nil.mp hDone
      exact ⟨s, rfl, h⟩
  | cons file rest ih =>
      rw [List.map_cons, List.isChain_cons_cons]
      by_cases hLess : file.dataSize ≤ s.enfSize
      · obtain ⟨next, hReload, hNext, hSize⟩ := reload_smaller h hLess
        rw [and_iff_right hLess, ← hSize, ← ih hNext]
        constructor
        · intro hStays done hDone
          have hRun := hStays (file :: done) (List.cons_prefix_cons.mpr ⟨rfl, hDone⟩)
          rwa [run_cons hReload] at hRun
        · intro hStays done hDone
          rcases List.prefix_cons_iff.mp hDone with rfl | ⟨later, rfl, hLater⟩
          · exact ⟨s, rfl, h⟩
          · rw [run_cons hReload]
            exact hStays later hLater
      · apply iff_of_false
        · intro hStays
          obtain ⟨s', hRun, -⟩ := hStays [file] (List.cons_prefix_cons.mpr ⟨rfl, List.nil_prefix⟩)
          simp [run, reload_larger h (Nat.lt_of_not_le hLess)] at hRun
        · exact fun hChain => hLess hChain.1

/-- The NPC data stays complete exactly if no file has more NPCs than the one that was read before it, and
the first one no more than there are ids. -/
theorem reloads_complete_iff (first : NpcFile) (files : List NpcFile) :
    StaysComplete (construct first) files ↔
      first.dataSize ≤ 32768 ∧ ((first :: files).map NpcFile.dataSize).IsChain (· ≥ ·) := by
  rw [← construct_complete_iff]
  constructor
  · intro hStays
    obtain ⟨s, hRun, hComplete⟩ := hStays [] List.nil_prefix
    obtain rfl := Option.some.inj hRun
    exact ⟨hComplete, (staysComplete_iff hComplete files).mp hStays⟩
  · intro ⟨hComplete, hChain⟩
    exact (staysComplete_iff hComplete files).mpr hChain

/-- A file with one NPC, in the place of one with none. -/
theorem newNpc_counterexample : ¬∀ (first : NpcFile) (files : List NpcFile), StaysComplete (construct first) files := by
  intro h
  obtain ⟨s, hRun, -⟩ := h ⟨[]⟩ [⟨[[65]]⟩] [⟨[[65]]⟩] List.prefix_rfl
  have hNone : run reloadPub (construct ⟨[]⟩) [⟨[[65]]⟩] = none := rfl
  rw [hNone] at hRun
  cases hRun

end Entries

end Etheos.PubFiles
