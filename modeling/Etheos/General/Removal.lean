import Mathlib.Data.List.Basic
import Mathlib.Tactic.Common

/-! Records that are taken off a list one by one, until something is thrown. -/
namespace General

/-- What comes of one record. Something may be thrown before or after the record is
taken off. -/
inductive Verdict (σ : Type*) where
  | keep
  | erase (next : σ)
  | throw
  | eraseThrow

namespace Verdict

variable {σ : Type*}

def throws : Verdict σ → Bool
  | .keep => false
  | .erase _ => false
  | .throw => true
  | .eraseThrow => true

def erases : Verdict σ → Bool
  | .keep => false
  | .erase _ => true
  | .throw => false
  | .eraseThrow => true

end Verdict

structure Removal (σ ρ : Type*) where
  state : σ
  left : List ρ
  thrown : Bool

variable {σ ρ τ κ ν : Type*}

def removeEach (f : σ → ρ → Verdict σ) (s : σ) : List ρ → Removal σ ρ
  | [] => ⟨s, [], false⟩
  | r :: rest =>
      match f s r with
      | .keep =>
          let done := removeEach f s rest
          { done with left := r :: done.left }
      | .erase next => removeEach f next rest
      | .throw => ⟨s, r :: rest, true⟩
      | .eraseThrow => ⟨s, rest, true⟩

section Lists

/-- Two lists in a row are one list. -/
theorem removeEach_append (f : σ → ρ → Verdict σ) (s : σ) (xs ys : List ρ) :
    removeEach f s (xs ++ ys) =
      let first := removeEach f s xs
      if first.thrown then { first with left := first.left ++ ys }
      else
        let second := removeEach f first.state ys
        { second with left := first.left ++ second.left } := by
  induction xs generalizing s with
  | nil => simp [removeEach]
  | cons x xs ih =>
      rw [List.cons_append, removeEach, removeEach]
      cases f s x with
      | keep =>
          dsimp only
          rw [ih]
          dsimp only
          split <;> rfl
      | erase next => exact ih next
      | throw => rfl
      | eraseThrow => rfl

theorem removeEach_map (f : σ → τ → Verdict σ) (g : ρ → τ) (s : σ) (xs : List ρ) :
    removeEach f s (xs.map g) =
      let done := removeEach (fun s r => f s (g r)) s xs
      ⟨done.state, done.left.map g, done.thrown⟩ := by
  induction xs generalizing s with
  | nil => rfl
  | cons x xs ih =>
      rw [List.map_cons, removeEach, removeEach]
      cases f s (g x) with
      | keep =>
          dsimp only
          rw [ih]
          rfl
      | erase next => exact ih next
      | throw => rfl
      | eraseThrow => rfl

theorem removeEach_left (f : σ → ρ → Verdict σ) (s : σ) (rs : List ρ) :
    (removeEach f s rs).left.Sublist rs := by
  induction rs generalizing s with
  | nil => exact List.Sublist.refl _
  | cons r rs ih =>
      rw [removeEach]
      cases f s r with
      | keep => exact (ih s).cons_cons r
      | erase next => exact (ih next).cons r
      | throw => exact List.Sublist.refl _
      | eraseThrow => exact List.sublist_cons_self r rs

end Lists

/-- The record is taken off before anything is thrown, judged by the first state. -/
def Handled (f : σ → ρ → Verdict σ) (s : σ) : List ρ → ρ → Prop
  | [], _ => False
  | x :: rest, r => (r = x ∧ (f s x).erases) ∨ ((f s x).throws = false ∧ Handled f s rest r)

instance handledDecidable (f : σ → ρ → Verdict σ) (s : σ) [DecidableEq ρ] :
    ∀ (rs : List ρ) (r : ρ), Decidable (Handled f s rs r)
  | [], _ => isFalse id
  | x :: rest, r =>
      have := handledDecidable f s rest r
      inferInstanceAs (Decidable ((r = x ∧ (f s x).erases) ∨ ((f s x).throws = false ∧ Handled f s rest r)))

theorem Handled.mem {f : σ → ρ → Verdict σ} {s : σ} {rs : List ρ} {r : ρ} (h : Handled f s rs r) :
    r ∈ rs := by
  induction rs with
  | nil => exact h.elim
  | cons x rest ih =>
      rcases h with ⟨rfl, -⟩ | ⟨-, hLater⟩
      · exact List.mem_cons_self
      · exact List.mem_cons_of_mem _ (ih hLater)

/-- What comes of a record depends only on what the state shows of its key, and taking a
record off changes nothing for other keys. -/
structure Local (f : σ → ρ → Verdict σ) (key : ρ → κ) (view : σ → ρ → ν) : Prop where
  throws : ∀ s s' r, view s r = view s' r → (f s r).throws = (f s' r).throws
  erases : ∀ s s' r, view s r = view s' r → (f s r).erases = (f s' r).erases
  frame : ∀ s next r r', f s r = .erase next → key r ≠ key r' → view next r' = view s r'

section Local

variable {f : σ → ρ → Verdict σ} {key : ρ → κ} {view : σ → ρ → ν}

/-- The other records look the same when one has been taken off. -/
theorem Local.views (h : Local f key view) {s start next : σ} {x : ρ} {rest : List ρ}
    (hNodup : ((x :: rest).map key).Nodup) (hView : ∀ r ∈ x :: rest, view s r = view start r)
    (hErase : f s x = .erase next) : ∀ r ∈ rest, view next r = view start r := by
  intro r hr
  have hApart : key x ≠ key r := by
    intro hSame
    exact (List.nodup_cons.mp hNodup).1 (hSame ▸ List.mem_map_of_mem hr)
  exact (h.frame s next x r hErase hApart).trans (hView r (List.mem_cons_of_mem _ hr))

theorem Local.thrown_iff (h : Local f key view) (start : σ) {s : σ} {rs : List ρ}
    (hNodup : (rs.map key).Nodup) (hView : ∀ r ∈ rs, view s r = view start r) :
    (removeEach f s rs).thrown = true ↔ ∃ r ∈ rs, (f start r).throws = true := by
  induction rs generalizing s with
  | nil => simp [removeEach]
  | cons x rest ih =>
      have hFirst := h.throws s start x (hView x List.mem_cons_self)
      have hTail := (List.nodup_cons.mp hNodup).2
      rw [removeEach, List.exists_mem_cons_iff, ← hFirst]
      cases hVerdict : f s x with
      | keep =>
          have hRest := ih hTail fun r hr => hView r (List.mem_cons_of_mem _ hr)
          simpa [Verdict.throws] using hRest
      | erase next =>
          have hRest := ih hTail (h.views hNodup hView hVerdict)
          simpa [Verdict.throws] using hRest
      | throw => simp [Verdict.throws]
      | eraseThrow => simp [Verdict.throws]

/-- The records that are gone are those that have been handled. -/
theorem Local.not_mem_left_iff (h : Local f key view) (start : σ) {s : σ} {rs : List ρ}
    (hNodup : (rs.map key).Nodup) (hView : ∀ r ∈ rs, view s r = view start r) {r : ρ} (hr : r ∈ rs) :
    r ∉ (removeEach f s rs).left ↔ Handled f start rs r := by
  induction rs generalizing s with
  | nil => cases hr
  | cons x rest ih =>
      have hThrows := h.throws s start x (hView x List.mem_cons_self)
      have hErases := h.erases s start x (hView x List.mem_cons_self)
      obtain ⟨hFresh, hTail⟩ := List.nodup_cons.mp hNodup
      have hNew : x ∉ rest := fun hMem => hFresh (List.mem_map_of_mem hMem)
      have hViewRest : ∀ r ∈ rest, view s r = view start r := fun r hr =>
        hView r (List.mem_cons_of_mem _ hr)
      rw [removeEach, Handled, ← hThrows, ← hErases]
      cases hVerdict : f s x with
      | keep =>
          dsimp only [Verdict.throws, Verdict.erases]
          rcases List.mem_cons.mp hr with rfl | hOld
          · have hNot : ¬Handled f start rest r := fun hHandled => hNew hHandled.mem
            simp [hNot]
          · have hNe : r ≠ x := fun hSame => hNew (hSame ▸ hOld)
            have hRest := ih hTail hViewRest hOld
            simp [hNe, hRest]
      | erase next =>
          dsimp only [Verdict.throws, Verdict.erases]
          rcases List.mem_cons.mp hr with rfl | hOld
          · have hGone : r ∉ (removeEach f next rest).left := fun hMem =>
              hNew ((removeEach_left f next rest).subset hMem)
            simp [hGone]
          · have hNe : r ≠ x := fun hSame => hNew (hSame ▸ hOld)
            have hRest := ih hTail (h.views hNodup hView hVerdict) hOld
            simp [hNe, hRest]
      | throw =>
          dsimp only [Verdict.throws, Verdict.erases]
          simp [List.mem_cons.mp hr]
      | eraseThrow =>
          dsimp only [Verdict.throws, Verdict.erases]
          rcases List.mem_cons.mp hr with rfl | hOld
          · simp [hNew]
          · have hNe : r ≠ x := fun hSame => hNew (hSame ▸ hOld)
            simp [hNe, hOld]

/-- Where nothing is thrown, every record is still there or stored in the end. -/
theorem stored_of_unthrown {stored : σ → ρ → Prop}
    (hStores : ∀ s next r, f s r = .erase next → stored next r)
    (hKeeps : ∀ s next r r', f s r = .erase next → key r ≠ key r' → stored s r' → stored next r')
    {s : σ} {rs : List ρ} (hNodup : (rs.map key).Nodup) (hDone : (removeEach f s rs).thrown = false) :
    (∀ r ∈ rs, r ∈ (removeEach f s rs).left ∨ stored (removeEach f s rs).state r) ∧
      ∀ r, key r ∉ rs.map key → stored s r → stored (removeEach f s rs).state r := by
  induction rs generalizing s with
  | nil =>
      constructor
      · intro r hr
        cases hr
      · exact fun _ _ hOld => hOld
  | cons x rest ih =>
      obtain ⟨hFresh, hTail⟩ := List.nodup_cons.mp hNodup
      rw [removeEach] at hDone ⊢
      cases hVerdict : f s x with
      | keep =>
          rw [hVerdict] at hDone
          obtain ⟨hRest, hOthers⟩ := ih hTail hDone
          constructor
          · intro r hr
            rcases List.mem_cons.mp hr with rfl | hOld
            · exact .inl List.mem_cons_self
            · exact (hRest r hOld).imp_left (List.mem_cons_of_mem _)
          · intro r hKey hOld
            exact hOthers r (fun hMem => hKey (List.mem_cons_of_mem _ hMem)) hOld
      | erase next =>
          rw [hVerdict] at hDone
          obtain ⟨hRest, hOthers⟩ := ih hTail hDone
          constructor
          · intro r hr
            rcases List.mem_cons.mp hr with rfl | hOld
            · exact .inr (hOthers r hFresh (hStores s next r hVerdict))
            · exact hRest r hOld
          · intro r hKey hOld
            have hNe : key x ≠ key r := fun hSame => hKey (hSame ▸ List.mem_cons_self)
            exact hOthers r (fun hMem => hKey (List.mem_cons_of_mem _ hMem))
              (hKeeps s next x r hVerdict hNe hOld)
      | throw =>
          rw [hVerdict] at hDone
          cases hDone
      | eraseThrow =>
          rw [hVerdict] at hDone
          cases hDone

end Local

end General
