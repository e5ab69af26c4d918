import Mathlib.Algebra.BigOperators.Group.List.Basic
import Mathlib.Data.List.Nodup
import Mathlib.Data.Int.Interval
import Mathlib.Tactic.Abel

/-! Lists of entries, of which the first one with a property is found, changed or
erased, and sums over them. -/
namespace General.Entries

variable {α : Type*} {p : α → Prop} [DecidablePred p]

/-- Changes the first entry with the property. -/
def modifyFirst (p : α → Prop) [DecidablePred p] (f : α → α) : List α → List α
  | [] => []
  | a :: rest => if p a then f a :: rest else a :: modifyFirst p f rest

/-- Erases the first entry with the property. -/
def eraseFirst (p : α → Prop) [DecidablePred p] : List α → List α
  | [] => []
  | a :: rest => if p a then rest else a :: eraseFirst p rest

theorem find_cons (a : α) (rest : List α) :
    (a :: rest).find? (p ·) = if p a then some a else rest.find? (p ·) := by
  by_cases h : p a
  · simp [h]
  · simp [h]

theorem of_found {entries : List α} {a : α} (h : entries.find? (p ·) = some a) : p a := by
  simpa using List.find?_some h

section Changed

variable {entries : List α} {a : α}

theorem modifyFirst_split (h : entries.find? (p ·) = some a) (f : α → α) :
    ∃ before after, entries = before ++ a :: after ∧
      modifyFirst p f entries = before ++ f a :: after := by
  induction entries with
  | nil => cases h
  | cons first rest ih =>
      rw [find_cons] at h
      unfold modifyFirst
      split at h
      case isTrue hFirst =>
        cases h
        exact ⟨[], rest, rfl, if_pos hFirst⟩
      case isFalse hFirst =>
        obtain ⟨before, after, hEntries, hModified⟩ := ih h
        refine ⟨first :: before, after, congrArg _ hEntries, ?_⟩
        rw [if_neg hFirst, hModified, List.cons_append]

theorem mem_modifyFirst (h : entries.find? (p ·) = some a) {f : α → α} {b : α}
    (hMem : b ∈ modifyFirst p f entries) : b ∈ entries ∨ b = f a := by
  obtain ⟨before, after, hEntries, hModified⟩ := modifyFirst_split h f
  rw [hModified] at hMem
  rw [hEntries]
  rcases List.mem_append.mp hMem with hBefore | hRest
  · exact .inl (List.mem_append_left _ hBefore)
  · rcases List.mem_cons.mp hRest with hNew | hAfter
    · exact .inr hNew
    · exact .inl (List.mem_append_right _ (List.mem_cons_of_mem _ hAfter))

theorem modifyFirst_mem (h : entries.find? (p ·) = some a) (f : α → α) : f a ∈ modifyFirst p f entries := by
  obtain ⟨before, after, -, hModified⟩ := modifyFirst_split h f
  rw [hModified]
  exact List.mem_append_right _ List.mem_cons_self

theorem eraseFirst_split (h : entries.find? (p ·) = some a) :
    ∃ before after, entries = before ++ a :: after ∧ eraseFirst p entries = before ++ after := by
  induction entries with
  | nil => cases h
  | cons first rest ih =>
      rw [find_cons] at h
      unfold eraseFirst
      split at h
      case isTrue hFirst =>
        cases h
        exact ⟨[], rest, rfl, if_pos hFirst⟩
      case isFalse hFirst =>
        obtain ⟨before, after, hEntries, hErased⟩ := ih h
        refine ⟨first :: before, after, congrArg _ hEntries, ?_⟩
        rw [if_neg hFirst, hErased, List.cons_append]

theorem modifyFirst_of_missing (h : entries.find? (p ·) = none) (f : α → α) :
    modifyFirst p f entries = entries := by
  induction entries with
  | nil => rfl
  | cons first rest ih =>
      rw [find_cons] at h
      unfold modifyFirst
      split at h
      · cases h
      case isFalse hFirst => rw [if_neg hFirst, ih h]

/-- A change that changes nothing of the first entry. -/
theorem modifyFirst_same {f : α → α} (h : ∀ a, entries.find? (p ·) = some a → f a = a) :
    modifyFirst p f entries = entries := by
  cases hFound : entries.find? (p ·) with
  | none => exact modifyFirst_of_missing hFound f
  | some a =>
      obtain ⟨before, after, hEntries, hModified⟩ := modifyFirst_split hFound f
      rw [hModified, h a hFound, ← hEntries]

theorem map_modifyFirst {β : Type*} (k : α → β) {f : α → α} (h : ∀ a ∈ entries, k (f a) = k a) :
    (modifyFirst p f entries).map k = entries.map k := by
  induction entries with
  | nil => rfl
  | cons first rest ih =>
      rw [modifyFirst]
      split
      · rw [List.map_cons, List.map_cons, h first List.mem_cons_self]
      · rw [List.map_cons, List.map_cons, ih fun a ha => h a (List.mem_cons_of_mem _ ha)]

/-- The same at an index. -/
theorem map_modify {β : Type*} (k : α → β) {f : α → α} (h : ∀ a, k (f a) = k a) (entries : List α) (i : ℕ) :
    (entries.modify i f).map k = entries.map k := by
  induction entries generalizing i with
  | nil => rw [List.modify_nil]
  | cons first rest ih =>
      cases i with
      | zero => rw [List.modify_zero_cons, List.map_cons, List.map_cons, h]
      | succ i => rw [List.modify_succ_cons, List.map_cons, List.map_cons, ih]

theorem forall_modify {P : α → Prop} {f : α → α} {i : ℕ} (h : ∀ a ∈ entries, P a)
    (hNew : ∀ a, entries[i]? = some a → P (f a)) : ∀ a ∈ entries.modify i f, P a := by
  intro a ha
  obtain ⟨j, hj⟩ := List.mem_iff_getElem?.mp ha
  rw [List.getElem?_modify, Option.map_eq_map, Option.map_eq_some_iff] at hj
  obtain ⟨b, hb, rfl⟩ := hj
  split
  case isTrue hIndex => exact hNew b (hIndex ▸ hb)
  case isFalse => exact h b (List.mem_of_getElem? hb)

theorem length_modifyFirst (p : α → Prop) [DecidablePred p] (f : α → α) (entries : List α) :
    (modifyFirst p f entries).length = entries.length := by
  have hMap : (modifyFirst p f entries).map (fun _ => ()) = entries.map fun _ => () :=
    map_modifyFirst _ fun _ _ => rfl
  simpa using congrArg List.length hMap

theorem forall_modifyFirst_of_found {P : α → Prop} {f : α → α} (hFound : entries.find? (p ·) = some a)
    (h : ∀ b ∈ entries, P b) (hNew : P (f a)) : ∀ b ∈ modifyFirst p f entries, P b := by
  obtain ⟨before, after, hEntries, hModified⟩ := modifyFirst_split hFound f
  rw [hEntries, List.forall_mem_append, List.forall_mem_cons] at h
  rw [hModified, List.forall_mem_append, List.forall_mem_cons]
  exact ⟨h.1, hNew, h.2.2⟩

/-- What all entries have is kept by a change that keeps it. -/
theorem forall_modifyFirst {P : α → Prop} {f : α → α} (h : ∀ a ∈ entries, P a)
    (hKeep : ∀ a, P a → P (f a)) : ∀ a ∈ modifyFirst p f entries, P a := by
  induction entries with
  | nil => exact h
  | cons first rest ih =>
      obtain ⟨hFirst, hRest⟩ := List.forall_mem_cons.mp h
      rw [modifyFirst]
      split
      · exact List.forall_mem_cons.mpr ⟨hKeep first hFirst, hRest⟩
      · exact List.forall_mem_cons.mpr ⟨hFirst, ih hRest⟩

theorem eraseFirst_sublist (p : α → Prop) [DecidablePred p] (entries : List α) :
    (eraseFirst p entries).Sublist entries := by
  induction entries with
  | nil => exact List.Sublist.refl _
  | cons first rest ih =>
      rw [eraseFirst]
      split
      · exact List.sublist_cons_self first rest
      · exact ih.cons_cons first

end Changed

section Filtered

variable {q : α → Prop} [DecidablePred q] {entries : List α}

/-- Of the entries with the property the first one is gone. -/
theorem filter_eraseFirst : (eraseFirst p entries).filter (p ·) = (entries.filter (p ·)).tail := by
  induction entries with
  | nil => rfl
  | cons first rest ih =>
      unfold eraseFirst
      by_cases hFirst : p first
      · simp [hFirst]
      · simpa [hFirst] using ih

theorem filter_eraseFirst_of_not (h : ∀ a, p a → ¬q a) :
    (eraseFirst p entries).filter (q ·) = entries.filter (q ·) := by
  induction entries with
  | nil => rfl
  | cons first rest ih =>
      unfold eraseFirst
      by_cases hFirst : p first
      · simp [hFirst, h first hFirst]
      · rw [if_neg hFirst, List.filter_cons, List.filter_cons, ih]

/-- Of the entries with the property the first one is changed. -/
theorem filter_modifyFirst {f : α → α} (hKeep : ∀ a, p a → p (f a)) :
    (modifyFirst p f entries).filter (p ·) = (entries.filter (p ·)).modifyHead f := by
  induction entries with
  | nil => rfl
  | cons first rest ih =>
      unfold modifyFirst
      by_cases hFirst : p first
      · simp [hFirst, hKeep first hFirst]
      · simpa [hFirst] using ih

theorem filter_modifyFirst_of_not {f : α → α} (h : ∀ a, p a → ¬q a ∧ ¬q (f a)) :
    (modifyFirst p f entries).filter (q ·) = entries.filter (q ·) := by
  induction entries with
  | nil => rfl
  | cons first rest ih =>
      unfold modifyFirst
      by_cases hFirst : p first
      · simp [hFirst, h first hFirst]
      · rw [if_neg hFirst, List.filter_cons, List.filter_cons, ih]

end Filtered

section Keys

variable {κ : Type*} [DecidableEq κ] (key : α → κ)

theorem map_eraseFirst (k : κ) (entries : List α) :
    (eraseFirst (fun a => key a = k) entries).map key = (entries.map key).erase k := by
  induction entries with
  | nil => rfl
  | cons first rest ih =>
      rw [eraseFirst, List.map_cons, List.erase_cons]
      by_cases hFirst : key first = k
      · rw [if_pos hFirst, if_pos (beq_iff_eq.mpr hFirst)]
      · rw [if_neg hFirst, if_neg (by simpa using hFirst), List.map_cons, ih]

/-- An entry that replaces the one with its key keeps the keys distinct. -/
theorem nodup_replaced (a : α) {entries : List α} (h : (entries.map key).Nodup) :
    ((eraseFirst (fun b => key b = key a) entries ++ [a]).map key).Nodup := by
  rw [List.map_append, map_eraseFirst, List.map_singleton]
  refine (h.erase _).append (List.nodup_singleton _) fun k hOld hNew => ?_
  obtain rfl := List.mem_singleton.mp hNew
  exact h.not_mem_erase hOld

end Keys

section Places

variable {places : List ℤ} {n : ℤ}

/-- Of the places `1, …, n` no more than `n` are taken. -/
theorem length_places_le (hPlaces : places.Nodup) (hRange : ∀ k ∈ places, 1 ≤ k ∧ k ≤ n) (hn : 0 ≤ n) :
    (places.length : ℤ) ≤ n := by
  have hSubset : places.toFinset ⊆ Finset.Icc 1 n := by
    intro k hk
    exact Finset.mem_Icc.mpr (hRange k (List.mem_toFinset.mp hk))
  have hCard := Finset.card_le_card hSubset
  rw [List.toFinset_card_of_nodup hPlaces, Int.card_Icc] at hCard
  omega

/-- As long as one is free, there are fewer. -/
theorem length_places_lt (hPlaces : places.Nodup) (hRange : ∀ k ∈ places, 1 ≤ k ∧ k ≤ n) {k : ℤ}
    (hk : 1 ≤ k ∧ k ≤ n) (hFree : k ∉ places) : (places.length : ℤ) < n := by
  have hLength := length_places_le (List.nodup_cons.mpr ⟨hFree, hPlaces⟩)
    (List.forall_mem_cons.mpr ⟨hk, hRange⟩) (by omega)
  rw [List.length_cons] at hLength
  omega

end Places

section Dispatch

variable {ρ : Type*} {here : ρ → α → Prop} [∀ r, DecidablePred (here r)] {f : ρ → α → α}

theorem modifyFirst_middle {before : List α} {a : α} {after : List α} (hBefore : ∀ b ∈ before, ¬p b)
    (h : p a) (g : α → α) : modifyFirst p g (before ++ a :: after) = before ++ g a :: after := by
  induction before with
  | nil => exact if_pos h
  | cons first rest ih =>
      rw [List.cons_append, modifyFirst, if_neg (hBefore first List.mem_cons_self),
        ih fun b hb => hBefore b (List.mem_cons_of_mem _ hb), List.cons_append]

/-- Records of one entry leave the others alone. -/
theorem foldl_modifyFirst_middle (hKeep : ∀ r r' a, here r (f r' a) ↔ here r a) {records : List ρ}
    {before : List α} {a : α} {after : List α} (hBefore : ∀ r ∈ records, ∀ b ∈ before, ¬here r b)
    (hHere : ∀ r ∈ records, here r a) :
    records.foldl (fun entries r => modifyFirst (here r) (f r) entries) (before ++ a :: after) =
      before ++ records.foldl (fun a r => f r a) a :: after := by
  induction records generalizing a with
  | nil => rfl
  | cons r rest ih =>
      rw [List.foldl_cons, List.foldl_cons,
        modifyFirst_middle (hBefore r List.mem_cons_self) (hHere r List.mem_cons_self)]
      refine ih (fun r' hr' => hBefore r' (List.mem_cons_of_mem _ hr')) fun r' hr' => ?_
      exact (hKeep r' r a).mpr (hHere r' (List.mem_cons_of_mem _ hr'))

/-- Every entry gets its own records, which belong to none in front of it. -/
theorem foldl_flatMap_modifyFirst (hKeep : ∀ r r' a, here r (f r' a) ↔ here r a) {blank : α → α}
    (hBlank : ∀ r a, here r (blank a) ↔ here r a) {own : α → List ρ} {entries : List α}
    (hOwn : ∀ a ∈ entries, ∀ r ∈ own a, here r a)
    (hFirst : entries.Pairwise fun a b => ∀ r ∈ own b, ¬here r a) :
    (entries.flatMap own).foldl (fun entries r => modifyFirst (here r) (f r) entries) (entries.map blank) =
      entries.map fun a => (own a).foldl (fun a r => f r a) (blank a) := by
  have hFold : ∀ (r : ρ) (a : α) (records : List ρ),
      here r (records.foldl (fun a r => f r a) a) ↔ here r a := by
    intro r a records
    induction records generalizing a with
    | nil => rfl
    | cons r' rest ih => exact (ih _).trans (hKeep r r' a)
  suffices hAll : ∀ before : List α, (∀ a ∈ entries, ∀ r ∈ own a, ∀ b ∈ before, ¬here r b) →
      (entries.flatMap own).foldl (fun entries r => modifyFirst (here r) (f r) entries)
        (before ++ entries.map blank) =
        before ++ entries.map fun a => (own a).foldl (fun a r => f r a) (blank a) from
    hAll [] fun _ _ _ _ _ hMem => by cases hMem
  induction entries with
  | nil => exact fun _ _ => rfl
  | cons a rest ih =>
      intro before hBefore
      obtain ⟨hHead, hTail⟩ := List.pairwise_cons.mp hFirst
      rw [List.flatMap_cons, List.foldl_append, List.map_cons,
        foldl_modifyFirst_middle hKeep (hBefore a List.mem_cons_self)
          (fun r hr => (hBlank r a).mpr (hOwn a List.mem_cons_self r hr)),
        ← List.singleton_append, ← List.append_assoc,
        ih (fun b hb => hOwn b (List.mem_cons_of_mem _ hb)) hTail]
      · rw [List.map_cons, List.append_assoc, List.singleton_append]
      · intro b hb r hr b' hMem
        rcases List.mem_append.mp hMem with hOld | hNew
        · exact hBefore b (List.mem_cons_of_mem _ hb) r hr b' hOld
        · obtain rfl := List.mem_singleton.mp hNew
          rw [hFold, hBlank]
          exact hHead b hb r hr

end Dispatch

section Sums

variable {M : Type*} [AddCommGroup M] {entries : List α} {a : α} (weight : α → M)

theorem sum_split (before : List α) (a : α) (after : List α) :
    ((before ++ a :: after).map weight).sum =
      (before.map weight).sum + (weight a + (after.map weight).sum) := by
  rw [List.map_append, List.sum_append, List.map_cons, List.sum_cons]

theorem sum_append_one (entries : List α) (a : α) :
    ((entries ++ [a]).map weight).sum = (entries.map weight).sum + weight a := by
  rw [sum_split, List.map_nil, List.sum_nil, add_zero]

/-- One entry of the sum is replaced. -/
theorem sum_modifyFirst (h : entries.find? (p ·) = some a) (f : α → α) :
    ((modifyFirst p f entries).map weight).sum =
      (entries.map weight).sum + (weight (f a) - weight a) := by
  obtain ⟨before, after, hEntries, hModified⟩ := modifyFirst_split h f
  rw [hModified, hEntries, sum_split, sum_split]
  abel

/-- One entry of the sum is missing. -/
theorem sum_eraseFirst (h : entries.find? (p ·) = some a) :
    ((eraseFirst p entries).map weight).sum = (entries.map weight).sum - weight a := by
  obtain ⟨before, after, hEntries, hErased⟩ := eraseFirst_split h
  rw [hErased, hEntries, sum_split, List.map_append, List.sum_append]
  abel

end Sums

/-- Two counts that differ in one entry at most. -/
theorem countP_change [DecidableEq α] {entries : List α} {a : α} {k l : α → Bool} (hNodup : entries.Nodup)
    (ha : a ∈ entries) (h : ∀ b, b ≠ a → k b = l b) :
    entries.countP l + (k a).toNat = entries.countP k + (l a).toNat := by
  have hPerm := List.perm_cons_erase ha
  have hRest : (entries.erase a).countP l = (entries.erase a).countP k := by
    refine List.countP_congr fun b hb => ?_
    rw [h b (hNodup.mem_erase_iff.mp hb).1]
  rw [hPerm.countP_eq, hPerm.countP_eq, List.countP_cons, List.countP_cons, hRest]
  cases k a with
  | false => cases l a with
    | false => rfl
    | true => rfl
  | true => cases l a with
    | false => rfl
    | true => rfl

theorem countP_mem [DecidableEq α] {entries part : List α} (hNodup : entries.Nodup) (hPart : part.Nodup)
    (h : ∀ a ∈ part, a ∈ entries) : entries.countP (fun a => a ∈ part) = part.length := by
  rw [List.countP_eq_length_filter]
  refine ((List.perm_ext_iff_of_nodup (hNodup.filter _) hPart).mpr fun a => ?_).length_eq
  simpa using h a

section Keys

variable {κ : Type*} [DecidableEq κ] {key : α → κ}

theorem find_key {entries : List α} (hOnce : (entries.map key).Nodup) {a : α} (ha : a ∈ entries) :
    entries.find? (key · = key a) = some a := by
  induction entries with
  | nil => cases ha
  | cons first rest ih =>
      rw [List.map_cons, List.nodup_cons] at hOnce
      rw [find_cons]
      obtain rfl | hRest := List.mem_cons.mp ha
      · exact if_pos rfl
      · have hOther : ¬key first = key a := by
          intro hSame
          exact hOnce.1 (hSame ▸ List.mem_map_of_mem hRest)
        rw [if_neg hOther]
        exact ih hOnce.2 hRest

/-- Who looks up all keys finds all entries once. -/
theorem filterMap_find_perm {entries : List α} {keys : List κ} (hKeys : keys.Nodup)
    (hOnce : (entries.map key).Nodup) (hAll : ∀ a ∈ entries, key a ∈ keys) :
    (keys.filterMap fun k => entries.find? (key · = k)).Perm entries := by
  have hFound : ∀ k a, entries.find? (key · = k) = some a → key a = k := fun k a h =>
    of_found (p := fun a => key a = k) h
  have hNodup : (keys.filterMap fun k => entries.find? (key · = k)).Nodup := by
    refine hKeys.filterMap fun k k' a hFirst hSecond => ?_
    rw [← hFound k a hFirst, hFound k' a hSecond]
  refine (List.perm_ext_iff_of_nodup hNodup hOnce.of_map).mpr fun a => ?_
  rw [List.mem_filterMap]
  constructor
  · rintro ⟨k, -, hHere⟩
    exact List.mem_of_find?_eq_some hHere
  · intro ha
    exact ⟨key a, hAll a ha, find_key hOnce ha⟩

theorem sum_find {M : Type*} [AddCommMonoid M] {entries : List α} {keys : List κ} (hKeys : keys.Nodup)
    (hOnce : (entries.map key).Nodup) (hAll : ∀ a ∈ entries, key a ∈ keys) (weight : α → M) :
    (keys.map fun k => (entries.find? (key · = k)).elim 0 weight).sum = (entries.map weight).sum := by
  rw [← ((filterMap_find_perm hKeys hOnce hAll).map weight).sum_eq]
  clear hKeys hAll
  induction keys with
  | nil => rfl
  | cons k rest ih =>
      rw [List.map_cons, List.sum_cons, ih]
      cases hFound : entries.find? (key · = k) with
      | none => simp [hFound]
      | some a => simp [hFound]

end Keys

end General.Entries
