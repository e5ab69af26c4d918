import Mathlib.Tactic.Common

/-! Hoare triples of programs with a state and exceptions. What has been done
to the state when an exception is thrown stays done. -/
namespace General

variable {ε σ α β : Type}

section Steps

variable {x : EStateM ε σ α} {f : α → EStateM ε σ β} {s s' : σ}

theorem bind_of_ok {a : α} (h : x s = .ok a s') : (x >>= f) s = f a s' := by
  change EStateM.bind x f s = f a s'
  simp only [EStateM.bind, h]

theorem bind_of_error {e : ε} (h : x s = .error e s') : (x >>= f) s = .error e s' := by
  change EStateM.bind x f s = .error e s'
  simp only [EStateM.bind, h]

theorem tryCatch_of_ok {a : α} {handler : ε → EStateM ε σ α} (h : x s = .ok a s') :
    tryCatch x handler s = .ok a s' := by
  change EStateM.tryCatch x handler s = .ok a s'
  simp only [EStateM.tryCatch, h]

theorem tryCatch_of_error {e : ε} {handler : ε → EStateM ε σ α} (h : x s = .error e s') :
    tryCatch x handler s = handler e s' := by
  change EStateM.tryCatch x handler s = handler e s'
  simp only [EStateM.tryCatch, h]
  rfl

end Steps

/-- The state that a program leaves, also when it throws. -/
def final (x : EStateM ε σ α) (s : σ) : σ :=
  match x s with
  | .ok _ s' => s'
  | .error _ s' => s'

section Final

variable {s : σ}

@[simp] theorem final_pure (a : α) : final (pure a : EStateM ε σ α) s = s := rfl

@[simp] theorem final_modify (g : σ → σ) : final (modify g : EStateM ε σ PUnit) s = g s := rfl

theorem final_read (f : σ → EStateM ε σ β) : final (get >>= f) s = final (f s) s := rfl

theorem final_modify_bind (g : σ → σ) (f : PUnit → EStateM ε σ β) :
    final (modify g >>= f) s = final (f ⟨⟩) (g s) := rfl

theorem final_of_ok {x : EStateM ε σ α} {s' : σ} {a : α} (h : x s = .ok a s') : final x s = s' := by
  rw [final, h]

theorem final_of_error {x : EStateM ε σ α} {s' : σ} {e : ε} (h : x s = .error e s') :
    final x s = s' := by
  rw [final, h]

theorem final_bind_of_ok {x : EStateM ε σ α} {f : α → EStateM ε σ β} {s' : σ} {a : α}
    (h : x s = .ok a s') : final (x >>= f) s = final (f a) s' := by
  rw [final, bind_of_ok h, final]

theorem final_bind_of_error {x : EStateM ε σ α} {f : α → EStateM ε σ β} {s' : σ} {e : ε}
    (h : x s = .error e s') : final (x >>= f) s = s' := by
  rw [final, bind_of_error h]

theorem final_discard (x : EStateM ε σ α) : final (Functor.discard x) s = final x s := by
  change final (x >>= fun _ => (pure PUnit.unit : EStateM ε σ PUnit)) s = final x s
  cases h : x s with
  | ok a s' =>
      rw [final_bind_of_ok h, final_of_ok h]
      rfl
  | error e s' => rw [final_bind_of_error h, final_of_error h]

theorem final_discard_bind (x : EStateM ε σ α) (f : EStateM ε σ β) :
    final (Functor.discard x >>= fun _ => f) s = final (x >>= fun _ => f) s := by
  have hDiscard : Functor.discard x = (x >>= fun _ => pure PUnit.unit : EStateM ε σ PUnit) := rfl
  rw [hDiscard]
  cases h : x s with
  | ok a s' =>
      have hFirst : (x >>= fun _ => pure PUnit.unit : EStateM ε σ PUnit) s = .ok ⟨⟩ s' := bind_of_ok h
      rw [final_bind_of_ok hFirst, final_bind_of_ok h]
  | error e s' =>
      have hFirst : (x >>= fun _ => pure PUnit.unit : EStateM ε σ PUnit) s = .error e s' :=
        bind_of_error h
      rw [final_bind_of_error hFirst, final_bind_of_error h]

end Final

/-- From every state with `P`, the program returns with `Q` or throws with `E`. -/
def Triple (P : σ → Prop) (x : EStateM ε σ α) (Q : α → σ → Prop) (E : ε → σ → Prop) : Prop :=
  ∀ s, P s → match x s with
    | .ok a s' => Q a s'
    | .error e s' => E e s'

namespace Triple

variable {P P' : σ → Prop} {Q Q' : α → σ → Prop} {R : β → σ → Prop} {E E' : ε → σ → Prop}
  {x : EStateM ε σ α} {f : α → EStateM ε σ β}

theorem ret {a : α} (h : ∀ s, P s → Q a s) : Triple P (Pure.pure a : EStateM ε σ α) Q E :=
  fun s hs => h s hs

theorem raise {e : ε} (h : ∀ s, P s → E e s) : Triple P (throw e : EStateM ε σ α) Q E :=
  fun s hs => h s hs

theorem bind (hx : Triple P x Q E) (hf : ∀ a, Triple (Q a) (f a) R E) :
    Triple P (x >>= f) R E := by
  intro s hs
  have hFirst := hx s hs
  change match EStateM.bind x f s with
    | .ok b s' => R b s'
    | .error e s' => E e s'
  unfold EStateM.bind
  cases hResult : x s with
  | ok a s' =>
      rw [hResult] at hFirst
      exact hf a s' hFirst
  | error e s' =>
      rw [hResult] at hFirst
      exact hFirst

theorem conseq (hPre : ∀ s, P' s → P s) (h : Triple P x Q E) (hPost : ∀ a s, Q a s → Q' a s)
    (hError : ∀ e s, E e s → E' e s) : Triple P' x Q' E' := by
  intro s hs
  have hResult := h s (hPre s hs)
  cases hx : x s with
  | ok a s' =>
      rw [hx] at hResult
      exact hPost a s' hResult
  | error e s' =>
      rw [hx] at hResult
      exact hError e s' hResult

theorem weaken (hPre : ∀ s, P' s → P s) (h : Triple P x Q E) : Triple P' x Q E :=
  h.conseq hPre (fun _ _ => id) (fun _ _ => id)

theorem strengthen (h : Triple P x Q E) (hPost : ∀ a s, Q a s → Q' a s) : Triple P x Q' E :=
  h.conseq (fun _ => id) hPost (fun _ _ => id)

/-- A triple may be shown one initial state at a time. -/
theorem pin (h : ∀ s, P s → Triple (· = s) x Q E) : Triple P x Q E :=
  fun s hs => h s hs s rfl

theorem either (h : Triple P x Q E) (h' : Triple P' x Q E) :
    Triple (fun s => P s ∨ P' s) x Q E :=
  fun s hs => hs.elim (h s) (h' s)

theorem modify {g : σ → σ} {Q : PUnit → σ → Prop} (h : ∀ s, P s → Q ⟨⟩ (g s)) :
    Triple P (modify g : EStateM ε σ PUnit) Q E :=
  fun s hs => h s hs

/-- A program that reads the state goes on with the state at hand. -/
theorem read {f : σ → EStateM ε σ β} (h : ∀ s, P s → Triple (· = s) (f s) R E) :
    Triple P (get >>= f) R E :=
  fun s hs => h s hs s rfl

theorem branch {c : Prop} [Decidable c] {y : EStateM ε σ α} (hx : c → Triple P x Q E)
    (hy : ¬c → Triple P y Q E) : Triple P (if c then x else y) Q E := by
  split
  case isTrue h => exact hx h
  case isFalse h => exact hy h

/-- An exception is handled in the state that it was thrown in. -/
theorem handle {handler : ε → EStateM ε σ α} (hx : Triple P x Q E)
    (hHandler : ∀ e, Triple (E e) (handler e) Q E') : Triple P (tryCatch x handler) Q E' := by
  intro s hs
  have hFirst := hx s hs
  cases hResult : x s with
  | ok a s' =>
      rw [hResult] at hFirst
      rw [tryCatch_of_ok hResult]
      exact hFirst
  | error e s' =>
      rw [hResult] at hFirst
      rw [tryCatch_of_error hResult]
      exact hHandler e s' hFirst

/-- The result of a program is not looked at. -/
theorem seq (hx : Triple P x (fun _ => P') E) {y : EStateM ε σ β} (hy : Triple P' y R E) :
    Triple P (x >>= fun _ => y) R E :=
  hx.bind fun _ => hy

theorem cut (P' : σ → Prop) (hx : Triple P x (fun _ => P') E) {y : EStateM ε σ β}
    (hy : Triple P' y R E) : Triple P (x >>= fun _ => y) R E :=
  hx.seq hy

end Triple

/-- Two triples of one program hold at once. -/
theorem Triple.both {P P' : σ → Prop} {Q Q' : α → σ → Prop} {E E' : ε → σ → Prop}
    {x : EStateM ε σ α} (h : Triple P x Q E) (h' : Triple P' x Q' E') :
    Triple (fun s => P s ∧ P' s) x (fun a s => Q a s ∧ Q' a s) (fun e s => E e s ∧ E' e s) := by
  intro s hs
  have hResult := h s hs.1
  have hResult' := h' s hs.2
  cases hx : x s with
  | ok a s' =>
      rw [hx] at hResult hResult'
      exact ⟨hResult, hResult'⟩
  | error e s' =>
      rw [hx] at hResult hResult'
      exact ⟨hResult, hResult'⟩

/-- The assertion holds after the program as before it, also when it throws. -/
def Keeps (P : σ → Prop) (x : EStateM ε σ α) : Prop :=
  Triple P x (fun _ => P) (fun _ => P)

namespace Keeps

variable {P : σ → Prop} {x : EStateM ε σ α}

theorem ret {a : α} : Keeps P (Pure.pure a : EStateM ε σ α) := Triple.ret fun _ hs => hs

theorem raise {e : ε} : Keeps P (throw e : EStateM ε σ α) := Triple.raise fun _ hs => hs

theorem bind {f : α → EStateM ε σ β} (hx : Keeps P x) (hf : ∀ a, Keeps P (f a)) :
    Keeps P (x >>= f) :=
  Triple.bind hx hf

theorem read {f : σ → EStateM ε σ β} (hf : ∀ s, Keeps P (f s)) : Keeps P (get >>= f) :=
  fun s hs => hf s s hs

theorem modify {g : σ → σ} (h : ∀ s, P s → P (g s)) :
    Keeps P (modify g : EStateM ε σ PUnit) :=
  Triple.modify h

theorem branch {c : Prop} [Decidable c] {y : EStateM ε σ α} (hx : Keeps P x) (hy : Keeps P y) :
    Keeps P (if c then x else y) :=
  Triple.branch (fun _ => hx) (fun _ => hy)

theorem final (h : Keeps P x) {s : σ} (hs : P s) : P (final x s) := by
  have hResult := h s hs
  unfold General.final
  cases hx : x s with
  | ok a s' =>
      rw [hx] at hResult
      exact hResult
  | error e s' =>
      rw [hx] at hResult
      exact hResult

end Keeps

end General
