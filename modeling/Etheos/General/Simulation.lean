import Etheos.General.Run

/-! Simulation of one system by another. The second system answers each step of the first one with a run. -/
namespace General

variable {σ ε τ ι : Type*} {step : σ → ε → Option σ} {move : τ → ι → Option τ} {bad : σ → ε → Prop}
  {foul : τ → ι → Prop}

theorem Avoids.append {t t' : τ} {before after : List ι} (hBefore : Avoids move foul t before)
    (hRun : run move t before = some t') (hAfter : Avoids move foul t' after) :
    Avoids move foul t (before ++ after) := by
  induction before generalizing t with
  | nil =>
      obtain rfl := Option.some.inj hRun
      exact hAfter
  | cons first before ih =>
      obtain ⟨next, hStep, hRest⟩ := Option.bind_eq_some_iff.mp hRun
      obtain ⟨hFirst, hBefore⟩ := (avoids_cons hStep before).mp hBefore
      exact (avoids_cons hStep _).mpr ⟨hFirst, ih hBefore hRest⟩

/-- The second system has a run without foul moves that ends in a related state. -/
def Answers (move : τ → ι → Option τ) (foul : τ → ι → Prop) (Related : σ → τ → Prop) (t : τ) (s : σ) : Prop :=
  ∃ moves t', run move t moves = some t' ∧ Avoids move foul t moves ∧ Related s t'

/-- Where each step is answered, so is each run. -/
theorem Answers.runs {Related : σ → τ → Prop}
    (hStep : ∀ s t event next, Related s t → ¬bad s event → step s event = some next →
      Answers move foul Related t next)
    {s : σ} {t : τ} (h : Related s t) {events : List ε} (hAvoids : Avoids step bad s events) {s' : σ}
    (hRun : run step s events = some s') : Answers move foul Related t s' := by
  induction events generalizing s t with
  | nil =>
      obtain rfl := Option.some.inj hRun
      exact ⟨[], t, rfl, avoids_nil, h⟩
  | cons event events ih =>
      obtain ⟨next, hNext, hRest⟩ := Option.bind_eq_some_iff.mp hRun
      obtain ⟨hGood, hAvoids⟩ := (avoids_cons hNext events).mp hAvoids
      obtain ⟨moves, between, hMoves, hFair, hRelated⟩ := hStep s t event next h hGood hNext
      obtain ⟨more, t', hMore, hLater, hEnd⟩ := ih hRelated hAvoids hRest
      exact ⟨moves ++ more, t', by rw [run_append, hMoves]; exact hMore, hFair.append hMoves hLater, hEnd⟩

end General
