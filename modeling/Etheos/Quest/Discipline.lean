import Etheos.Quest.Context

/-! Assertions that the functions of a context keep, whatever the virtual
functions do that keep them too. -/
namespace Etheos.EOPlus

open General

/-- What holds at each depth of activations, what holds behind an exception, and
what is known of the states that contexts are in. -/
structure Discipline (σ : Type) where
  holds : Nat → Runtime σ → Prop
  thrown : Nat → Fault → Runtime σ → Prop
  state : ContextId → State → Prop
  selected {m : Nat} {s : Runtime σ} {this : ContextId} {st : State} :
    holds m s → (s.contexts this).state = some st → state this st
  setContext {m : Nat} {s : Runtime σ} {this : ContextId} {context : Context} :
    holds m s → (∀ st, context.state = some st → state this st) →
      holds m (s.setContext this context)
  push {m : Nat} {s : Runtime σ} :
    holds m s → ¬maxRecursion < s.recursiveDepth + 1 → holds (m + 1) s.push
  pop {m : Nat} {s : Runtime σ} : holds (m + 1) s → holds m s.pop
  unwind {m : Nat} {s : Runtime σ} {e : Fault} : thrown (m + 1) e s → thrown m e s.pop
  change {m : Nat} {s : Runtime σ} : holds m s → holds m s.change
  raise {m : Nat} {s : Runtime σ} {what : String} :
    holds m s → thrown m (.runtimeError what) s

variable {σ α β : Type} {v : Virtual σ}

namespace Discipline

variable (D : Discipline σ)

def Keeps (m : Nat) (x : Prog σ α) : Prop := Triple (D.holds m) x (fun _ => D.holds m) (D.thrown m)

/-- The virtual functions keep the assertions where a context calls them. -/
structure Admits (v : Virtual σ) (m : Nat) : Prop where
  action {this : ContextId} {st : State} {action : Action} : D.state this st →
    action ∈ st.actions → D.Keeps m (v.doAction this action)
  condition {this : ContextId} {st : State} {action : Action} : D.state this st →
    action ∈ st.actions → action.cond.asks = true → D.Keeps m (v.checkRule this action.condExpr)
  rule {this : ContextId} {st : State} {rule : Rule} : D.state this st →
    rule ∈ st.rules → D.Keeps m (v.checkRule this rule.expr)
  ruleAction {this : ContextId} {st : State} {rule : Rule} : D.state this st →
    rule ∈ st.rules → D.Keeps m (v.doAction this rule.action)

variable {D} {m : Nat} {this : ContextId}

namespace Keeps

theorem ret {a : α} : D.Keeps m (pure a : Prog σ α) := Triple.ret fun _ hs => hs

theorem bind {x : Prog σ α} {f : α → Prog σ β} (hx : D.Keeps m x) (hf : ∀ a, D.Keeps m (f a)) :
    D.Keeps m (x >>= f) :=
  Triple.bind hx hf

theorem raise {what : String} : D.Keeps m (throw (.runtimeError what) : Prog σ α) :=
  Triple.raise fun _ hs => D.raise hs

theorem branch {c : Prop} [Decidable c] {x y : Prog σ α} (hx : c → D.Keeps m x)
    (hy : ¬c → D.Keeps m y) : D.Keeps m (if c then x else y) :=
  Triple.branch hx hy

theorem discard {x : Prog σ α} (hx : D.Keeps m x) : D.Keeps m (Functor.discard x) :=
  hx.bind fun _ => .ret

/-- What a context has selected is known where it is read. -/
theorem getContext {f : Context → Prog σ β}
    (hf : ∀ context, (∀ st, context.state = some st → D.state this st) → D.Keeps m (f context)) :
    D.Keeps m (EOPlus.getContext this >>= f) :=
  Triple.pin fun s hs => Triple.bind (Q := fun context t => context = s.contexts this ∧ t = s)
    (Triple.read fun t hEq => Triple.ret fun _ hSame => by subst hSame hEq; exact ⟨rfl, rfl⟩)
    fun context => Triple.pin fun t ⟨hContext, hSame⟩ => by
      subst hContext hSame
      exact (hf _ fun st => D.selected hs).weaken fun _ hEq => hEq ▸ hs

theorem setContext {context : Context} (h : ∀ st, context.state = some st → D.state this st) :
    D.Keeps m (EOPlus.setContext this context) :=
  Triple.modify fun _ hs => D.setContext hs h

theorem guarded {body : Prog σ α} (hBody : D.Keeps (m + 1) body) : D.Keeps m (EOPlus.guarded body) := by
  have hEnter : Triple (D.holds m) (enter : Prog σ Unit) (fun _ => D.holds (m + 1)) (D.thrown m) := by
    refine Triple.read fun s hs => Triple.branch (fun _ => ?_) fun hRoom => ?_
    · exact Triple.raise fun _ hEq => D.raise (hEq ▸ hs)
    · exact Triple.modify (g := fun _ => s.push) fun _ _ => D.push hs hRoom
  have hLeave : Triple (D.holds (m + 1)) (leave : Prog σ Unit) (fun _ => D.holds m) (D.thrown m) :=
    Triple.modify fun _ hs => D.pop hs
  refine hEnter.bind fun _ => Triple.bind (Triple.handle hBody fun e => ?_) fun a => ?_
  · exact Triple.bind (Triple.modify fun _ hs => D.unwind hs) fun _ => Triple.raise fun _ hs => hs
  · exact hLeave.bind fun _ => Keeps.ret

end Keeps

theorem performAction_keeps {action : Action} (hAction : D.Keeps m (v.doAction this action)) :
    D.Keeps m (performAction v this action) := by
  refine hAction.bind fun changed => Keeps.branch (fun _ => ?_) fun _ => .ret
  exact Triple.modify fun _ hs => D.change hs

theorem runAction_keeps {action : Action} (hAction : D.Keeps m (v.doAction this action))
    (hCondition : action.cond.asks = true → D.Keeps m (v.checkRule this action.condExpr))
    (lastCond : Bool) : D.Keeps m (runAction v this action lastCond) := by
  have hPerform := performAction_keeps hAction
  refine Keeps.branch (fun _ => .ret) fun _ => Keeps.branch (fun hAsks => ?_) fun _ => ?_
  · refine (hCondition hAsks).bind fun holds => ?_
    have hTaken : D.Keeps m (if holds then performAction v this action else return () : Prog σ Unit) :=
      Keeps.branch (fun _ => hPerform) fun _ => .ret
    exact hTaken.bind fun _ => .ret
  · exact hPerform.bind fun _ => .ret

theorem runActions_keeps {actions : List Action}
    (hAction : ∀ action ∈ actions, D.Keeps m (v.doAction this action))
    (hCondition : ∀ action ∈ actions, action.cond.asks = true →
      D.Keeps m (v.checkRule this action.condExpr)) (lastCond : Bool) :
    D.Keeps m (runActions v this actions lastCond) := by
  induction actions generalizing lastCond with
  | nil => exact .ret
  | cons action actions ih =>
      obtain ⟨hFirst, hRest⟩ := List.forall_mem_cons.mp hAction
      obtain ⟨hFirstCondition, hRestCondition⟩ := List.forall_mem_cons.mp hCondition
      exact (runAction_keeps hFirst hFirstCondition lastCond).bind (ih hRest hRestCondition)

theorem runRules_keeps {rules : List Rule}
    (hRule : ∀ rule ∈ rules, D.Keeps m (v.checkRule this rule.expr))
    (hAction : ∀ rule ∈ rules, D.Keeps m (v.doAction this rule.action)) :
    D.Keeps m (runRules v this rules) := by
  induction rules with
  | nil => exact .ret
  | cons rule rules ih =>
      obtain ⟨hFirst, hRest⟩ := List.forall_mem_cons.mp hRule
      obtain ⟨hFirstAction, hRestAction⟩ := List.forall_mem_cons.mp hAction
      have hBehind := ih hRest hRestAction
      refine hFirst.bind fun _ => Keeps.branch (fun _ => ?_) fun _ => hBehind
      exact hFirstAction.bind fun _ => Keeps.branch (fun _ => .ret) fun _ => hBehind

theorem checkRules_keeps (hv : D.Admits v (m + 1)) : D.Keeps m (checkRules v this) := by
  refine Keeps.getContext fun context hSelected => ?_
  cases hState : context.state with
  | none => exact Keeps.branch (fun _ => .ret) fun _ => .raise
  | some state =>
      have hKnown := hSelected state hState
      exact Keeps.guarded (runRules_keeps (fun _ => hv.rule hKnown) fun _ => hv.ruleAction hKnown)

theorem doActions_keeps (hv : D.Admits v (m + 1)) : D.Keeps m (doActions v this) := by
  refine Keeps.getContext fun context hSelected => ?_
  cases hState : context.state with
  | none => exact Keeps.branch (fun _ => .ret) fun _ => .raise
  | some state =>
      have hKnown := hSelected state hState
      have hActions := runActions_keeps (fun _ => hv.action hKnown) (fun _ => hv.condition hKnown) false
      exact (Keeps.guarded hActions).discard.bind fun _ => (checkRules_keeps hv).discard

theorem setState_keeps (hv : D.Admits v (m + 1))
    (hFound : ∀ name st, (v.quest this).findState name = some st → D.state this st)
    (hBegin : ∀ name st, D.state this st → D.Keeps m (v.beginState this name st)) (name : String)
    (withActions : Bool) : D.Keeps m (setState v this name withActions) := by
  refine Keeps.getContext fun context hSelected => ?_
  refine (Keeps.setContext fun st hState => ?_).bind fun _ => ?_
  · split at hState
    · cases hState
    · exact hSelected st hState
  · cases hState : (v.quest this).findState (lowercase name) with
    | none => exact Keeps.branch (fun _ => .ret) fun _ => .raise
    | some state =>
        have hKnown := hFound _ state hState
        refine (Keeps.setContext fun st hSame => ?_).bind fun _ => ?_
        · exact Option.some.inj hSame ▸ hKnown
        · refine (hBegin name state hKnown).bind fun _ => ?_
          exact Keeps.branch (fun _ => doActions_keeps hv) fun _ => .ret

variable {argCheck : List Variant → Prog σ Bool}

theorem findRule_keeps {rule : String} {rules : List Rule}
    (hCheck : ∀ checked ∈ rules, checked.expr.function = rule → D.Keeps m (argCheck checked.expr.args)) :
    Triple (D.holds m) (findRule rule argCheck rules)
      (fun found s => D.holds m s ∧ ∀ result, found = some result → result ∈ rules) (D.thrown m) := by
  induction rules with
  | nil => exact Triple.ret fun _ hs => ⟨hs, nofun⟩
  | cons first rules ih =>
      obtain ⟨hFirst, hRest⟩ := List.forall_mem_cons.mp hCheck
      have hBehind := (ih hRest).strengthen fun found s ⟨hs, hFound⟩ =>
        (⟨hs, fun result h => List.mem_cons_of_mem first (hFound result h)⟩ :
          D.holds m s ∧ ∀ result, found = some result → result ∈ first :: rules)
      refine Triple.branch (fun hName => Triple.bind (hFirst hName) fun _ => ?_) fun _ => hBehind
      refine Triple.branch (fun _ => Triple.ret fun _ hs => ⟨hs, fun result h => ?_⟩) fun _ => hBehind
      exact Option.some.inj h ▸ List.mem_cons_self

theorem queryRule_keeps {rule : String}
    (hCheck : ∀ st, D.state this st → ∀ checked ∈ st.rules, checked.expr.function = rule →
      D.Keeps m (argCheck checked.expr.args)) : D.Keeps m (queryRule this rule argCheck) := by
  refine Keeps.getContext fun context hSelected => ?_
  cases hState : context.state with
  | none => exact .ret
  | some state =>
      refine Triple.bind (findRule_keeps (hCheck state (hSelected state hState))) fun _ => ?_
      exact Triple.ret fun _ hs => hs.1

theorem triggerRule_keeps {rule : String} (hv : D.Admits v m)
    (hCheck : ∀ st, D.state this st → ∀ checked ∈ st.rules, checked.expr.function = rule →
      D.Keeps m (argCheck checked.expr.args)) : D.Keeps m (triggerRule v this rule argCheck) := by
  refine Keeps.getContext fun context hSelected => ?_
  cases hState : context.state with
  | none => exact .ret
  | some state =>
      have hKnown := hSelected state hState
      refine Triple.bind (findRule_keeps (hCheck state hKnown)) fun found => ?_
      cases found with
      | none => exact Triple.ret fun _ hs => hs.1
      | some found =>
          refine Triple.pin fun s ⟨hs, hFound⟩ => ?_
          have hAction := (hv.ruleAction hKnown (hFound found rfl)).discard
          exact (hAction.bind fun _ => Keeps.ret).weaken fun _ hEq => hEq ▸ hs

end Discipline

end Etheos.EOPlus
