import Etheos.General.Entries
import Etheos.Character.Character

/-! What a list of items holds, and how that changes when items are added and
taken away. -/
namespace Etheos.Characters.CharacterItem

open General.Entries

/-- The amount of an item in all entries. -/
def total (id : Int) : List CharacterItem → Int
  | [] => 0
  | item :: rest => (if item.id = id then item.amount else 0) + total id rest

/-- No stack is below zero, where the limit of a stack is a sensible one. -/
def Stocked (maxItem : Int) (items : List CharacterItem) : Prop :=
  0 < maxItem → ∀ item ∈ items, 0 ≤ item.amount

@[simp] theorem amountOf_nil (id : Int) : amountOf [] id = 0 := rfl

theorem amountOf_cons (item : CharacterItem) (items : List CharacterItem) (id : Int) :
    amountOf (item :: items) id = if item.id = id then item.amount else amountOf items id := by
  unfold amountOf
  by_cases h : item.id = id
  · simp [h]
  · simp [h]

theorem isInt_amountOf (items : List CharacterItem) (id : Int) : IsInt (amountOf items id) := by
  induction items with
  | nil => exact (by decide : IsInt 0)
  | cons item items ih =>
      rw [amountOf_cons]
      split
      · exact item.isInt
      · exact ih

theorem stocked_itemUnserialize (maxItem : Int) (parts : List CharacterItem) :
    Stocked maxItem (itemUnserialize parts) := by
  intro _ item hItem
  obtain ⟨part, hPart, rfl⟩ := List.mem_map.mp hItem
  have hKept := (List.mem_filter.mp hPart).2
  simp only [decide_eq_true_eq] at hKept
  change 0 ≤ part.amount
  omega

/-- A sum that is not below zero has not run over. -/
theorem toInt_add {a n : Int} (ha : IsInt a) (hn : IsInt n) (hPos : 0 < n)
    (h : 0 ≤ toInt (a + n)) : toInt (a + n) = a + n := by
  unfold IsInt at ha hn
  by_cases hSmall : a + n < 2 ^ 31
  · exact IsInt.toInt_eq ⟨by omega, hSmall⟩
  · unfold toInt at h
    rw [Int.bmod_def] at h
    omega

/-- A sum that is not below the first summand has not run over. -/
theorem toInt_add_of_le {a n : Int} (ha : IsInt a) (hn : 0 < n ∧ n < 2 ^ 31)
    (h : a ≤ toInt (a + n)) : toInt (a + n) = a + n := by
  unfold IsInt at ha
  by_cases hSmall : a + n < 2 ^ 31
  · exact IsInt.toInt_eq ⟨by omega, hSmall⟩
  · unfold toInt at h
    rw [Int.bmod_def] at h
    omega

theorem toInt_add_toInt (a n : Int) : toInt (a + toInt n) = toInt (a + n) :=
  Int.add_bmod_bmod

theorem toInt_add_eq_self {a n : Int} (hn : IsInt n) (h : toInt (a + n) = a) : n = 0 := by
  unfold IsInt at hn
  unfold toInt at h
  rw [Int.bmod_def] at h
  omega

section

variable {maxItem id n : Int} {items items' : List CharacterItem}

/-- What is held after something has been added. -/
theorem add_cases (hMax : IsInt maxItem) (hn : IsInt n) (hPos : 0 < n)
    (h : add maxItem id n items = some items') :
    (amountOf items' id = min (amountOf items id + n) maxItem ∧ 0 ≤ amountOf items id + n ∨
      amountOf items id = 0 ∧ amountOf items' id = n) ∧
    (∀ x, x ≠ id → amountOf items' x = amountOf items x ∧ total x items' = total x items) ∧
    total id items' + amountOf items id = total id items + amountOf items' id := by
  induction items generalizing items' with
  | nil =>
      obtain rfl := Option.some.inj h
      simp only [amountOf_cons, amountOf_nil, of_id, of_amount, hn.toInt_eq, total]
      grind
  | cons item items ih =>
      unfold add at h
      split at h
      next hId =>
          split at h
          next => contradiction
          next hSum =>
              obtain rfl := Option.some.inj h
              have hExact := toInt_add item.isInt hn hPos (by omega)
              have hMin : IsInt (min (item.amount + n) maxItem) := by
                have := item.isInt
                unfold IsInt at *
                omega
              simp only [amountOf_cons, of_id, of_amount, total, hId, hExact, hMin.toInt_eq]
              grind
      next hId =>
          obtain ⟨rest, hRest, rfl⟩ := Option.map_eq_some_iff.mp h
          have := ih hRest
          simp only [amountOf_cons, total]
          grind

theorem add_stocked (hMax : IsInt maxItem) (hn : IsInt n) (hPos : 0 < n)
    (h : add maxItem id n items = some items') (hStock : Stocked maxItem items) :
    Stocked maxItem items' := by
  intro hLimit
  have hAll := hStock hLimit
  clear hStock
  induction items generalizing items' with
  | nil =>
      obtain rfl := Option.some.inj h
      simp only [List.mem_singleton, forall_eq, of_amount, hn.toInt_eq]
      omega
  | cons item items ih =>
      obtain ⟨hFirst, hOthers⟩ := List.forall_mem_cons.mp hAll
      unfold add at h
      split at h
      next =>
          split at h
          next => contradiction
          next hSum =>
              obtain rfl := Option.some.inj h
              have hMin : IsInt (min (toInt (item.amount + n)) maxItem) := by
                have := isInt_toInt (item.amount + n)
                unfold IsInt at *
                omega
              apply List.forall_mem_cons.mpr ⟨_, hOthers⟩
              rw [of_amount, hMin.toInt_eq]
              omega
      next =>
          obtain ⟨rest, hRest, rfl⟩ := Option.map_eq_some_iff.mp h
          exact List.forall_mem_cons.mpr ⟨hFirst, ih hRest hOthers⟩

/-- What is held after something has been taken away. -/
theorem del_cases (hPos : 0 < n) (h : del id n items = some items') :
    (n < amountOf items id → amountOf items' id = amountOf items id - n) ∧
    (n ≤ amountOf items id → total id items' = total id items - n) ∧
    ∀ x, x ≠ id → amountOf items' x = amountOf items x ∧ total x items' = total x items := by
  induction items generalizing items' with
  | nil => contradiction
  | cons item items ih =>
      unfold del at h
      split at h
      next hId =>
          split at h
          next =>
              obtain rfl := Option.some.inj h
              simp only [amountOf_cons, total]
              grind
          next hMore =>
              obtain rfl := Option.some.inj h
              have hLess : IsInt (item.amount - n) := by
                have := item.isInt
                unfold IsInt at *
                omega
              simp only [amountOf_cons, of_id, of_amount, total, hId, hLess.toInt_eq]
              grind
      next hId =>
          obtain ⟨rest, hRest, rfl⟩ := Option.map_eq_some_iff.mp h
          have := ih hRest
          simp only [amountOf_cons, total]
          grind

theorem del_stocked (hPos : 0 < n) (h : del id n items = some items')
    (hStock : Stocked maxItem items) : Stocked maxItem items' := by
  intro hLimit
  have hAll := hStock hLimit
  clear hStock
  induction items generalizing items' with
  | nil => contradiction
  | cons item items ih =>
      obtain ⟨hFirst, hOthers⟩ := List.forall_mem_cons.mp hAll
      unfold del at h
      split at h
      next =>
          split at h
          next =>
              obtain rfl := Option.some.inj h
              exact hOthers
          next hMore =>
              obtain rfl := Option.some.inj h
              have hLess : IsInt (item.amount - n) := by
                have := item.isInt
                unfold IsInt at *
                omega
              apply List.forall_mem_cons.mpr ⟨_, hOthers⟩
              rw [of_amount, hLess.toInt_eq]
              omega
      next =>
          obtain ⟨rest, hRest, rfl⟩ := Option.map_eq_some_iff.mp h
          exact List.forall_mem_cons.mpr ⟨hFirst, ih hRest hOthers⟩

/-- What is held can be taken away. -/
theorem del_isSome (hPos : 0 < n) (hEnough : n ≤ amountOf items id) : (del id n items).isSome := by
  induction items with
  | nil =>
      rw [amountOf_nil] at hEnough
      omega
  | cons item items ih =>
      rw [amountOf_cons] at hEnough
      unfold del
      split
      next =>
          split
          · rfl
          · rfl
      next hId =>
          rw [if_neg hId] at hEnough
          simp [ih hEnough]

end

section Found

variable {items : List CharacterItem} {item : CharacterItem} {id : Int}

theorem id_of_found (h : items.find? (·.id = id) = some item) : item.id = id :=
  of_found (p := fun it : CharacterItem => it.id = id) h

theorem total_eq_sum (id : Int) (items : List CharacterItem) :
    total id items = (items.map fun it => if it.id = id then it.amount else 0).sum := by
  induction items with
  | nil => rfl
  | cons first items ih => rw [total, ih, List.map_cons, List.sum_cons]

theorem change_eq (id : Int) (f : Int → Int) (items : List CharacterItem) :
    change id f items = modifyFirst (fun it => it.id = id) (fun it => of id (f it.amount)) items := by
  induction items with
  | nil => rfl
  | cons first items ih => rw [change, modifyFirst, ih]

theorem erase_eq (h : items.find? (·.id = id) = some item) :
    erase id items = some (eraseFirst (fun it => it.id = id) items) := by
  induction items with
  | nil => cases h
  | cons first items ih =>
      rw [find_cons] at h
      unfold erase eraseFirst
      split at h
      case isTrue hId => rw [if_pos hId, if_pos hId]
      case isFalse hId =>
        rw [if_neg hId, if_neg hId, ih h]
        rfl

theorem total_append (id : Int) (items more : List CharacterItem) :
    total id (items ++ more) = total id items + total id more := by
  rw [total_eq_sum, total_eq_sum, total_eq_sum, List.map_append, List.sum_append]

/-- The first entry is replaced, and all others stay as they are. -/
theorem total_change (h : items.find? (·.id = id) = some item) (f : Int → Int) (x : Int) :
    total x (change id f items) =
      total x items + if x = id then toInt (f item.amount) - item.amount else 0 := by
  rw [change_eq, total_eq_sum, total_eq_sum, sum_modifyFirst _ h, of_id, of_amount, id_of_found h]
  by_cases hx : x = id
  · rw [if_pos hx, if_pos hx.symm, if_pos hx.symm]
  · rw [if_neg hx, if_neg (Ne.symm hx), if_neg (Ne.symm hx), Int.sub_zero]

theorem total_eraseFirst (h : items.find? (·.id = id) = some item) (x : Int) :
    total x (eraseFirst (fun it => it.id = id) items) = total x items - if x = id then item.amount else 0 := by
  rw [total_eq_sum, total_eq_sum, sum_eraseFirst _ h, id_of_found h]
  by_cases hx : x = id
  · rw [if_pos hx, if_pos hx.symm]
  · rw [if_neg hx, if_neg (Ne.symm hx)]

theorem ids_change (h : items.find? (·.id = id) = some item) (f : Int → Int) :
    (change id f items).map (·.id) = items.map (·.id) := by
  obtain ⟨before, after, hItems, hChanged⟩ := modifyFirst_split h fun it => of id (f it.amount)
  rw [change_eq, hChanged, hItems, List.map_append, List.map_append, List.map_cons, List.map_cons, of_id,
    id_of_found h]

theorem mem_change (h : items.find? (·.id = id) = some item) {f : Int → Int} {i : CharacterItem}
    (hMem : i ∈ change id f items) : i ∈ items ∨ i = of id (f item.amount) :=
  mem_modifyFirst h (change_eq id f items ▸ hMem)

theorem change_mem (h : items.find? (·.id = id) = some item) (f : Int → Int) :
    of id (f item.amount) ∈ change id f items := by
  rw [change_eq]
  exact modifyFirst_mem h _

theorem id_of_missing (h : items.find? (·.id = id) = none) : ∀ item ∈ items, item.id ≠ id := by
  intro item hItem hId
  exact List.find?_eq_none.mp h item hItem (decide_eq_true hId)

theorem add_of_missing (h : items.find? (·.id = id) = none) (maxItem n : Int) :
    add maxItem id n items = some (items ++ [of id n]) := by
  induction items with
  | nil => rfl
  | cons first items ih =>
      rw [find_cons] at h
      split at h
      · cases h
      · unfold add
        rw [if_neg (by assumption), ih h]
        rfl

theorem add_of_found (h : items.find? (·.id = id) = some item) (maxItem n : Int) :
    add maxItem id n items =
      if toInt (item.amount + n) < 0 then none
      else some (change id (fun old => min (toInt (old + n)) maxItem) items) := by
  induction items with
  | nil => cases h
  | cons first items ih =>
      rw [find_cons] at h
      unfold add change
      split at h
      case isTrue hId =>
          cases h
          rw [if_pos hId, if_pos hId]
      case isFalse hId =>
          rw [if_neg hId, if_neg hId, ih h]
          split
          · rfl
          · rfl

theorem del_of_missing (h : items.find? (·.id = id) = none) (n : Int) : del id n items = none := by
  induction items with
  | nil => rfl
  | cons first items ih =>
      rw [find_cons] at h
      split at h
      · cases h
      · unfold del
        rw [if_neg (by assumption), ih h]
        rfl

/-- An entry that is there can be taken from. -/
theorem del_ne_none (h : items.find? (·.id = id) = some item) (n : Int) : del id n items ≠ none := by
  induction items with
  | nil => cases h
  | cons first items ih =>
      rw [find_cons] at h
      unfold del
      split at h
      case isTrue hId =>
          rw [if_pos hId]
          split <;> simp
      case isFalse hId =>
          rw [if_neg hId]
          simp [ih h]

theorem del_of_found (h : items.find? (·.id = id) = some item) (n : Int) :
    del id n items =
      if item.amount < 0 ∨ item.amount - n ≤ 0 then erase id items else some (change id (· - n) items) := by
  induction items with
  | nil => cases h
  | cons first items ih =>
      rw [find_cons] at h
      unfold del erase change
      split at h
      case isTrue hId =>
          cases h
          rw [if_pos hId, if_pos hId, if_pos hId]
      case isFalse hId =>
          rw [if_neg hId, if_neg hId, if_neg hId, ih h]
          split
          · rfl
          · rfl

end Found

end Etheos.Characters.CharacterItem
