import Mathlib.Algebra.Group.Nat.Defs
import Mathlib.Data.List.AList
import Mathlib.Logic.Function.Basic
import Mathlib.Tactic.Common

/-! Tables with finitely many keys, of which one value or all are changed, and
lists that are made from the rows of a table. -/
namespace General

abbrev Table (Key Value : Type*) := AList fun _ : Key => Value

namespace Table

variable {Key Value : Type*}

/-- Every value is changed. -/
def mapValues (f : Key → Value → Value) (table : Table Key Value) : Table Key Value :=
  ⟨table.entries.map (.map id f), .map₂ f _ table.nodupKeys⟩

/-- What is made from each of the rows. Some rows may be left out. -/
def select {α : Type*} (f : Key → Value → Option α) (table : Table Key Value) : List α :=
  table.entries.filterMap fun row => f row.1 row.2

variable [DecidableEq Key]

/-- Changes the value at one key, if there is one. -/
def modify (key : Key) (f : Value → Value) (table : Table Key Value) : Table Key Value :=
  match table.lookup key with
  | some value => table.insert key (f value)
  | none => table

theorem lookup_insert_eq (table : Table Key Value) (key : Key) (value : Value) (key' : Key) :
    (table.insert key value).lookup key' =
      if key' = key then some value else table.lookup key' := by
  by_cases h : key' = key
  · subst h
    rw [if_pos rfl, AList.lookup_insert]
  · rw [if_neg h, AList.lookup_insert_ne h]

theorem lookup_erase_eq (table : Table Key Value) (key key' : Key) :
    (table.erase key).lookup key' = if key' = key then none else table.lookup key' := by
  by_cases h : key' = key
  · subst h
    rw [if_pos rfl, AList.lookup_erase]
  · rw [if_neg h, AList.lookup_erase_ne h]

theorem lookup_modify (table : Table Key Value) (key : Key) (f : Value → Value) (key' : Key) :
    (table.modify key f).lookup key' =
      if key' = key then (table.lookup key').map f else table.lookup key' := by
  unfold modify
  split
  next value hLookup =>
    rw [lookup_insert_eq]
    by_cases h : key' = key
    · subst h
      rw [if_pos rfl, if_pos rfl, hLookup, Option.map_some]
    · rw [if_neg h, if_neg h]
  next hLookup =>
    by_cases h : key' = key
    · subst h
      rw [if_pos rfl, hLookup, Option.map_none]
    · rw [if_neg h]

theorem erase_modify (table : Table Key Value) (key : Key) (f : Value → Value) :
    (table.modify key f).erase key = table.erase key := by
  unfold modify
  split
  next value hLookup =>
    refine AList.ext ?_
    change List.kerase key (table.insert key (f value)).entries = _
    rw [AList.entries_insert]
    exact List.kerase_cons_eq rfl
  next => rfl

theorem lookup_mapValues (table : Table Key Value) (f : Key → Value → Value) (key : Key) :
    (table.mapValues f).lookup key = (table.lookup key).map (f key) :=
  List.dlookup_map₂ key

section Projection

variable {α : Type*} (g : Value → α) (table : Table Key Value)

/-- What a table says about the keys, of which only a part is looked at. -/
def project : Key → Option α := fun key => (table.lookup key).map g

theorem project_insert (key : Key) (value : Value) :
    project g (table.insert key value) = Function.update (project g table) key (some (g value)) := by
  funext other
  unfold project
  rw [lookup_insert_eq]
  by_cases h : other = key
  · subst h
    simp
  · simp [h]

theorem project_erase (key : Key) :
    project g (table.erase key) = Function.update (project g table) key none := by
  funext other
  unfold project
  rw [lookup_erase_eq]
  by_cases h : other = key
  · subst h
    simp
  · simp [h]

theorem project_modify (key : Key) (f : Value → Value) :
    project g (table.modify key f) =
      Function.update (project g table) key ((table.lookup key).map (g ∘ f)) := by
  funext other
  unfold project
  rw [lookup_modify]
  by_cases h : other = key
  · subst h
    simp
  · simp [h]

/-- A change that cannot be seen. -/
theorem project_modify_same {key : Key} {f : Value → Value}
    (h : ∀ value, table.lookup key = some value → g (f value) = g value) :
    project g (table.modify key f) = project g table := by
  rw [project_modify, Function.update_eq_self_iff]
  unfold project
  cases hLookup : table.lookup key with
  | none => rfl
  | some value => exact congrArg some (h value hLookup)

theorem project_mapValues_same {f : Key → Value → Value} (h : ∀ key value, g (f key value) = g value) :
    project g (table.mapValues f) = project g table := by
  funext key
  unfold project
  rw [lookup_mapValues]
  cases table.lookup key with
  | none => rfl
  | some value => exact congrArg some (h key value)

end Projection

theorem any_entries (table : Table Key Value) (p : Value → Prop) [DecidablePred p] :
    table.entries.any (p ·.2) ↔ ∃ key value, table.lookup key = some value ∧ p value := by
  simp only [List.any_eq_true, decide_eq_true_eq]
  constructor
  · rintro ⟨⟨key, value⟩, hRow, hValue⟩
    exact ⟨key, value, AList.mem_lookup_iff.mpr hRow, hValue⟩
  · rintro ⟨key, value, hLookup, hValue⟩
    exact ⟨⟨key, value⟩, AList.mem_lookup_iff.mp hLookup, hValue⟩

/-- The row at a key is the only one that is made into something with that
key. -/
theorem filter_select {α : Type*} (table : Table Key Value) {f : Key → Value → Option α}
    {name : α → Key} (hName : ∀ key value a, f key value = some a → name a = key) (key : Key) :
    (table.select f).filter (name · = key) = ((table.lookup key).bind (f key)).toList := by
  obtain ⟨entries, hNodup⟩ := table
  change (entries.filterMap _).filter _ = ((entries.dlookup key).bind (f key)).toList
  induction entries with
  | nil => rfl
  | cons row rest ih =>
      obtain ⟨rowKey, value⟩ := row
      obtain ⟨hFresh, hRest⟩ := List.nodupKeys_cons.mp hNodup
      have ih := ih hRest
      by_cases hKey : key = rowKey
      · subst hKey
        rw [List.dlookup_eq_none.mpr hFresh] at ih
        rw [List.dlookup_cons_eq]
        cases hMade : f key value with
        | none => simpa [hMade] using ih
        | some a => simpa [hMade, hName key value a hMade] using ih
      · rw [List.dlookup_cons_ne _ _ hKey]
        cases hMade : f rowKey value with
        | none => simpa [hMade] using ih
        | some a =>
            have hOther : name a ≠ key := fun h => hKey (h.symm.trans (hName rowKey value a hMade))
            simpa [hMade, hOther] using ih

/-- The order in which they are listed does not matter. -/
theorem filter_of_perm {α : Type*} (table : Table Key Value) {f : Key → Value → Option α}
    {name : α → Key} (hName : ∀ key value a, f key value = some a → name a = key) {list : List α}
    (hPerm : list.Perm (table.select f)) (key : Key) :
    list.filter (name · = key) = ((table.lookup key).bind (f key)).toList := by
  have hFilter := hPerm.filter (name · = key)
  rw [filter_select table hName key] at hFilter
  cases hRow : (table.lookup key).bind (f key) with
  | none =>
      rw [hRow] at hFilter
      exact hFilter.eq_nil
  | some a =>
      rw [hRow] at hFilter
      exact List.perm_singleton.mp hFilter

end Table

/-- A loop over keys changes the value at each of them once. -/
theorem foldl_update {Key Value : Type*} [DecidableEq Key] {keys : List Key} (hOnce : keys.Nodup)
    (f : Key → Value → Value) (values : Key → Value) (key : Key) :
    (keys.foldl (fun values key => Function.update values key (f key (values key))) values) key =
      if key ∈ keys then f key (values key) else values key := by
  induction keys generalizing values with
  | nil => simp
  | cons first rest ih =>
      obtain ⟨hFirst, hRest⟩ := List.nodup_cons.mp hOnce
      rw [List.foldl_cons, ih hRest]
      obtain rfl | hOther := eq_or_ne key first
      · simp [hFirst]
      · simp [hOther]

end General
