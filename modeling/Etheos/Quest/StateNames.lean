import Etheos.Quest.QuestContext
import Etheos.Quest.Saves

/-! The name of the state of a quest, after a state that the quest does not have was asked for. -/
namespace Etheos.Quests

open Characters EOPlus General QuestStates

section Names

variable {σ : Type} {v : Virtual σ} {this : ContextId} {s : Runtime σ}

/-- `StateName` is the name of the current state, if there is one. -/
def Named (v : Virtual σ) (this : ContextId) (s : Runtime σ) : Prop :=
  ∀ state, (s.contexts this).state = some state →
    (v.quest this).findState (s.contexts this).stateName = some state

/-- It throws a `Runtime_Error`, and everything is as it was. -/
def Refuses {α : Type} (x : Prog σ α) (s : Runtime σ) : Prop :=
  ∃ what, x s = .error (.runtimeError what) s

/-- What a request for a state that is not there leaves behind. -/
def misnamed (s : Runtime σ) (this : ContextId) (name : String) : Runtime σ :=
  s.setContext this { s.contexts this with stateName := lowercase name }

theorem misnamed_eq_iff {name : String} :
    misnamed s this name = s ↔ lowercase name = (s.contexts this).stateName := by
  constructor
  · intro h
    have hContext := congrFun (congrArg Runtime.contexts h) this
    simp only [misnamed, Runtime.setContext, Function.update_self] at hContext
    exact congrArg Context.stateName hContext
  · intro h
    simp only [misnamed, Runtime.setContext, h, Function.update_eq_self]

theorem named_misnamed_iff {name : String} (hUnknown : ¬HasState (v.quest this) (lowercase name)) :
    Named v this (misnamed s this name) ↔ (s.contexts this).state = none := by
  have hMissing : (v.quest this).findState (lowercase name) = none :=
    Option.not_isSome_iff_eq_none.mp fun hFound => hUnknown (.inl hFound)
  simp only [Named, misnamed, Runtime.setContext, Function.update_self, hMissing, reduceCtorEq, imp_false]
  exact (Option.eq_none_iff_forall_ne_some).symm

theorem refuses_of_misnamed {α : Type} {x : Prog σ α} {name what : String}
    (h : x s = .error (.runtimeError what) (misnamed s this name)) :
    Refuses x s ↔ lowercase name = (s.contexts this).stateName := by
  rw [← misnamed_eq_iff]
  constructor
  · rintro ⟨what', hRefused⟩
    rw [h] at hRefused
    exact (EStateM.Result.error.inj hRefused).2
  · intro hSame
    rw [hSame] at h
    exact ⟨what, h⟩

/-- `SetState` leaves everything as it was exactly if the unknown state is the one that the name
stands for already. The name of a current state is lost. -/
theorem setState_refuses_iff (v : Virtual σ) (this : ContextId) (name : String) (withActions : Bool)
    (s : Runtime σ) (hUnknown : ¬HasState (v.quest this) (lowercase name)) :
    (Refuses (setState v this name withActions) s ↔ lowercase name = (s.contexts this).stateName) ∧
      (Named v this (final (setState v this name withActions) s) ↔ (s.contexts this).state = none) := by
  have hThrown := setState_unknown hUnknown withActions s
  constructor
  · exact refuses_of_misnamed hThrown
  · rw [final_of_error hThrown]
    exact named_misnamed_iff hUnknown

/-- A quest with one state, which is selected. -/
def oneState : Virtual Unit where
  quest _ := ⟨false, [("begin", ⟨"", [], [], 0⟩)]⟩
  beginState _ _ _ := return ()
  doAction _ _ := return false
  checkRule _ _ := return false

def begun : Runtime Unit := ⟨0, fun _ => ⟨some ⟨"", [], [], 0⟩, "begin", false⟩, (), 0, 0, 0⟩

theorem setState_refuses_iff_nowhere :
    ¬HasState (oneState.quest ⟨1, 0⟩) (lowercase "Nowhere") ∧
      (Refuses (setState oneState ⟨1, 0⟩ "Nowhere" true) begun ↔
        lowercase "Nowhere" = (begun.contexts ⟨1, 0⟩).stateName) :=
  ⟨by decide, (setState_refuses_iff oneState ⟨1, 0⟩ "Nowhere" true begun (by decide)).1⟩

/-- The quest is still in its first state, and will be saved under a state that it does not have. -/
theorem setState_misnames :
    ¬HasState (oneState.quest ⟨1, 0⟩) (lowercase "Nowhere") ∧ Named oneState ⟨1, 0⟩ begun ∧
      ¬Refuses (setState oneState ⟨1, 0⟩ "Nowhere" true) begun ∧
      ¬Named oneState ⟨1, 0⟩ (final (setState oneState ⟨1, 0⟩ "Nowhere" true) begun) := by
  have hUnknown : ¬HasState (oneState.quest ⟨1, 0⟩) (lowercase "Nowhere") := by decide
  have hThrown := setState_unknown hUnknown true begun
  refine ⟨hUnknown, fun state hState => hState, ?_, ?_⟩
  · rw [refuses_of_misnamed hThrown]
    decide
  · rw [final_of_error hThrown]
    exact fun h => Option.some_ne_none _ ((named_misnamed_iff hUnknown).mp h)

end Names

section Actions

variable {v : Virtual Memory} {this target : ContextId} {args : List Variant} {s : Runtime Memory}

theorem arg_of_some {i : Nat} {value : Variant} (h : args[i]? = some value) : arg args i s = .ok value s := by
  unfold arg
  rw [h]
  rfl

theorem getQuest_eq (id : Int) :
    getQuest this id s = .ok (s.rest.quests (s.rest.records this).character id) s := rfl

/-- The action `setqueststate` passes its second argument on. -/
theorem setQuestState_unknown {id state : Variant} (hId : args[0]? = some id) (hState : args[1]? = some state)
    (hQuest : s.rest.quests (s.rest.records this).character (toShort id.int) = some target)
    (hUnknown : ¬HasState (v.quest target) (lowercase state.string)) :
    Refuses (setQuestState v this args) s ↔ lowercase state.string = (s.contexts target).stateName := by
  have hThrown := setState_unknown hUnknown true s
  have hMisnamed : setQuestState v this args s =
      .error (.runtimeError ("Unknown quest state: " ++ lowercase state.string))
        (misnamed s target state.string) := by
    unfold setQuestState
    rw [bind_of_ok (arg_of_some hId), bind_of_ok (arg_of_some hState), bind_of_ok (getQuest_eq _), hQuest]
    exact bind_of_error hThrown
  exact refuses_of_misnamed hMisnamed

theorem startState_eq {state : Variant} (hState : args[1]? = some state) :
    startState args s = .ok state.string s := by
  have hLength : 1 < args.length := (List.getElem?_eq_some_iff.mp hState).1
  unfold startState
  rw [if_pos hLength]
  exact bind_of_ok (arg_of_some hState)

/-- The action `startquest` takes the name of a quest that is done away. -/
theorem startQuest_unknown (files : Files) {id state : Variant} (hId : args[0]? = some id)
    (hState : args[1]? = some state)
    (hQuest : s.rest.quests (s.rest.records this).character (toShort id.int) = some target)
    (hDone : (s.contexts target).stateName = "done")
    (hUnknown : ¬HasState (v.quest target) (lowercase state.string)) :
    ¬Refuses (startQuest files v this args) s := by
  have hThrown := setState_unknown hUnknown true s
  have hMisnamed : startQuest files v this args s =
      .error (.runtimeError ("Unknown quest state: " ++ lowercase state.string))
        (misnamed s target state.string) := by
    unfold startQuest
    rw [bind_of_ok (arg_of_some hId), bind_of_ok (getQuest_eq _), hQuest]
    have hContext : getContext target s = .ok (s.contexts target) s := rfl
    dsimp only
    rw [bind_of_ok hContext, if_pos hDone, bind_of_ok (startState_eq hState)]
    exact bind_of_error hThrown
  rw [refuses_of_misnamed hMisnamed, hDone]
  intro hSame
  exact hUnknown (.inr (.inr hSame))

end Actions

end Etheos.Quests
