import Mathlib.Data.List.Basic
import Mathlib.Order.Lattice
import Mathlib.Tactic.Common

/-! Maps whose entries are kept in the order of their keys. -/
namespace General

structure SortedMap (κ ν : Type*) [LT κ] where
  entries : List (κ × ν)
  sorted : entries.Pairwise fun a b => a.1 < b.1

namespace SortedMap

variable {κ ν μ : Type*} [LinearOrder κ]

theorem ext_entries {m m' : SortedMap κ ν} (h : m.entries = m'.entries) : m = m' := by
  cases m
  cases m'
  cases h
  rfl

instance [DecidableEq ν] : DecidableEq (SortedMap κ ν) := fun m m' =>
  decidable_of_iff (m.entries = m'.entries) ⟨ext_entries, congrArg entries⟩

def empty : SortedMap κ ν := ⟨[], .nil⟩

def find (m : SortedMap κ ν) (k : κ) : Option ν := m.entries.lookup k

section Insert

variable (f : ν → ν) (k : κ) (v : ν)

/-- A new entry at its place. A value that is there already is changed. -/
def insertEntry : List (κ × ν) → List (κ × ν)
  | [] => [(k, v)]
  | e :: rest =>
      if k < e.1 then (k, v) :: e :: rest
      else if e.1 < k then e :: insertEntry rest
      else (e.1, f e.2) :: rest

variable {f k v}

theorem mem_insertEntry {entries : List (κ × ν)} {e : κ × ν} (h : e ∈ insertEntry f k v entries) :
    e.1 = k ∨ ∃ old ∈ entries, old.1 = e.1 := by
  induction entries with
  | nil =>
      obtain rfl := List.mem_singleton.mp h
      exact .inl rfl
  | cons first rest ih =>
      unfold insertEntry at h
      split at h
      · rcases List.mem_cons.mp h with rfl | hOld
        · exact .inl rfl
        · exact .inr ⟨e, hOld, rfl⟩
      · split at h
        · rcases List.mem_cons.mp h with rfl | hRest
          · exact .inr ⟨e, List.mem_cons_self, rfl⟩
          · obtain hKey | ⟨old, hOld, hSame⟩ := ih hRest
            · exact .inl hKey
            · exact .inr ⟨old, List.mem_cons_of_mem _ hOld, hSame⟩
        · rcases List.mem_cons.mp h with rfl | hOld
          · exact .inr ⟨first, List.mem_cons_self, rfl⟩
          · exact .inr ⟨e, List.mem_cons_of_mem _ hOld, rfl⟩

theorem insertEntry_sorted {entries : List (κ × ν)} (h : entries.Pairwise fun a b => a.1 < b.1) :
    (insertEntry f k v entries).Pairwise fun a b => a.1 < b.1 := by
  induction entries with
  | nil => exact List.pairwise_singleton _ _
  | cons first rest ih =>
      obtain ⟨hFirst, hRest⟩ := List.pairwise_cons.mp h
      unfold insertEntry
      split
      case isTrue hBefore =>
        refine List.pairwise_cons.mpr ⟨fun e he => ?_, h⟩
        rcases List.mem_cons.mp he with rfl | hOld
        · exact hBefore
        · exact lt_trans hBefore (hFirst e hOld)
      case isFalse =>
        split
        case isTrue hBehind =>
          refine List.pairwise_cons.mpr ⟨fun e he => ?_, ih hRest⟩
          obtain hKey | ⟨old, hOld, hSame⟩ := mem_insertEntry he
          · rw [hKey]
            exact hBehind
          · rw [← hSame]
            exact hFirst old hOld
        case isFalse => exact List.pairwise_cons.mpr ⟨hFirst, hRest⟩

/-- Behind all keys the new entry comes last. -/
theorem insertEntry_last {entries : List (κ × ν)} (h : ∀ e ∈ entries, e.1 < k) :
    insertEntry f k v entries = entries ++ [(k, v)] := by
  induction entries with
  | nil => rfl
  | cons first rest ih =>
      have hFirst := h first List.mem_cons_self
      rw [insertEntry, if_neg (lt_asymm hFirst), if_pos hFirst, ih fun e he => h e (List.mem_cons_of_mem _ he),
        List.cons_append]

theorem lookup_cons_eq (e : κ × ν) (rest : List (κ × ν)) (k : κ) :
    (e :: rest).lookup k = if k = e.1 then some e.2 else rest.lookup k := by
  rw [List.lookup_cons]
  by_cases h : k = e.1
  · simp [h]
  · rw [if_neg h, beq_false_of_ne h]

theorem lookup_of_lt {entries : List (κ × ν)} (h : ∀ e ∈ entries, k < e.1) : entries.lookup k = none := by
  induction entries with
  | nil => rfl
  | cons first rest ih =>
      have hFirst := h first List.mem_cons_self
      rw [lookup_cons_eq, if_neg (ne_of_lt hFirst), ih fun e he => h e (List.mem_cons_of_mem _ he)]

theorem lookup_insertEntry {entries : List (κ × ν)} (h : entries.Pairwise fun a b => a.1 < b.1) (k' : κ) :
    (insertEntry f k v entries).lookup k' =
      if k' = k then some ((entries.lookup k).elim v f) else entries.lookup k' := by
  induction entries with
  | nil => rw [insertEntry, lookup_cons_eq, List.lookup_nil, List.lookup_nil, Option.elim_none]
  | cons first rest ih =>
      obtain ⟨hFirst, hRest⟩ := List.pairwise_cons.mp h
      unfold insertEntry
      split
      case isTrue hBefore =>
        have hMissing : (first :: rest).lookup k = none := by
          refine lookup_of_lt fun e he => ?_
          rcases List.mem_cons.mp he with rfl | hOld
          · exact hBefore
          · exact lt_trans hBefore (hFirst e hOld)
        rw [hMissing, lookup_cons_eq, Option.elim_none]
      case isFalse hNot =>
        split
        case isTrue hBehind =>
          rw [lookup_cons_eq, ih hRest, lookup_cons_eq first rest k, lookup_cons_eq first rest k',
            if_neg (ne_of_gt hBehind)]
          by_cases hKey : k' = first.1
          · have hNe : k' ≠ k := hKey ▸ ne_of_lt hBehind
            rw [if_pos hKey, if_neg hNe, if_pos hKey]
          · rw [if_neg hKey, if_neg hKey]
        case isFalse hNotBehind =>
          obtain rfl : k = first.1 := le_antisymm (not_lt.mp hNotBehind) (not_lt.mp hNot)
          rw [lookup_cons_eq, lookup_cons_eq first rest, lookup_cons_eq first rest, if_pos rfl]
          by_cases hKey : k' = first.1
          · rw [if_pos hKey, if_pos hKey, Option.elim_some]
          · rw [if_neg hKey, if_neg hKey, if_neg hKey]

end Insert

def insertWith (f : ν → ν) (m : SortedMap κ ν) (k : κ) (v : ν) : SortedMap κ ν :=
  ⟨insertEntry f k v m.entries, insertEntry_sorted m.sorted⟩

/-- An entry that is there already stays. -/
def insert (m : SortedMap κ ν) (k : κ) (v : ν) : SortedMap κ ν := m.insertWith id k v

/-- An entry that is there already is overwritten. -/
def put (m : SortedMap κ ν) (k : κ) (v : ν) : SortedMap κ ν := m.insertWith (fun _ => v) k v

def mapValues (f : ν → μ) (m : SortedMap κ ν) : SortedMap κ μ :=
  ⟨m.entries.map (Prod.map id f), List.pairwise_map.mpr m.sorted⟩

section Find

variable (m : SortedMap κ ν) (k : κ) (v : ν)

@[simp] theorem find_empty : (empty : SortedMap κ ν).find k = none := rfl

theorem find_insert (k' : κ) :
    (m.insert k v).find k' = if k' = k then some ((m.find k).getD v) else m.find k' := by
  rw [find, insert, insertWith, lookup_insertEntry m.sorted, find, find]
  cases m.entries.lookup k <;> rfl

theorem find_put (k' : κ) : (m.put k v).find k' = if k' = k then some v else m.find k' := by
  rw [find, put, insertWith, lookup_insertEntry m.sorted, find]
  cases m.entries.lookup k <;> rfl

variable {m k v}

theorem mem_of_find (h : m.find k = some v) : (k, v) ∈ m.entries := by
  obtain ⟨entries, hSorted⟩ := m
  induction entries with
  | nil => cases h
  | cons first rest ih =>
      rw [find, lookup_cons_eq] at h
      split at h
      case isTrue hKey =>
        cases h
        rw [hKey]
        exact List.mem_cons_self
      case isFalse => exact List.mem_cons_of_mem _ (ih (List.pairwise_cons.mp hSorted).2 h)

theorem find_of_mem (h : (k, v) ∈ m.entries) : m.find k = some v := by
  obtain ⟨entries, hSorted⟩ := m
  induction entries with
  | nil => cases h
  | cons first rest ih =>
      obtain ⟨hFirst, hRest⟩ := List.pairwise_cons.mp hSorted
      rw [find, lookup_cons_eq]
      rcases List.mem_cons.mp h with rfl | hOld
      · exact if_pos rfl
      · rw [if_neg (ne_of_gt (hFirst (k, v) hOld))]
        exact ih hRest hOld

theorem mem_put {e : κ × ν} (h : e ∈ (m.put k v).entries) : e = (k, v) ∨ e ∈ m.entries := by
  have hFound := find_of_mem (k := e.1) (v := e.2) h
  rw [find_put] at hFound
  split at hFound
  case isTrue hKey => exact .inl (Prod.ext hKey (Option.some.inj hFound).symm)
  case isFalse => exact .inr (mem_of_find hFound)

end Find

/-- Entries in their order can be put into a map one by one. -/
theorem foldl_put (entries : List (κ × ν)) (m : SortedMap κ ν)
    (h : (m.entries ++ entries).Pairwise fun a b => a.1 < b.1) :
    (entries.foldl (fun m e => m.put e.1 e.2) m).entries = m.entries ++ entries := by
  induction entries generalizing m with
  | nil => rw [List.foldl_nil, List.append_nil]
  | cons e rest ih =>
      have hLast : (m.put e.1 e.2).entries = m.entries ++ [e] :=
        insertEntry_last fun old hOld => (List.pairwise_append.mp h).2.2 old hOld e List.mem_cons_self
      rw [List.foldl_cons, ih]
      · rw [hLast, List.append_assoc, List.singleton_append]
      · rw [hLast, List.append_assoc, List.singleton_append]
        exact h

/-- A fold of `insert`, where some entries are left out. -/
def insertAll (f : κ → μ → Option ν) (entries : List (κ × μ)) (m : SortedMap κ ν) : SortedMap κ ν :=
  entries.foldl (fun m e => (f e.1 e.2).elim m (m.insert e.1)) m

theorem find_insertAll {f : κ → μ → Option ν} {entries : List (κ × μ)}
    (h : entries.Pairwise fun a b => a.1 < b.1) (m : SortedMap κ ν) (k : κ) :
    (insertAll f entries m).find k = (m.find k).or ((entries.lookup k).bind (f k)) := by
  unfold insertAll
  induction entries generalizing m with
  | nil => rw [List.foldl_nil, List.lookup_nil, Option.bind_none, Option.or_none]
  | cons e rest ih =>
      obtain ⟨hFirst, hRest⟩ := List.pairwise_cons.mp h
      rw [List.foldl_cons, ih hRest, lookup_cons_eq]
      by_cases hKey : k = e.1
      · subst hKey
        rw [if_pos rfl, lookup_of_lt hFirst, Option.bind_none, Option.or_none, Option.bind_some]
        cases f e.1 e.2 with
        | none => rw [Option.elim_none, Option.or_none]
        | some v =>
            rw [Option.elim_some, find_insert, if_pos rfl]
            cases m.find e.1 <;> rfl
      · rw [if_neg hKey]
        cases f e.1 e.2 with
        | none => rfl
        | some v => rw [Option.elim_some, find_insert, if_neg hKey]

end SortedMap

end General
