import Mathlib.Tactic.Common

/-! The syntax trees of quests. -/
namespace Etheos.EOPlus

/-- `std::tolower` on every character. -/
def lowercase (subject : String) : String := String.ofList (subject.toList.map Char.toLower)

/-- A `util::variant`, by what its conversions give. -/
structure Variant where
  int : Int
  string : String
  deriving Repr, DecidableEq

structure Expression where
  function : String
  args : List Variant
  deriving Repr, DecidableEq

/-- `None`, `If`, `Else` and `ElseIf`. -/
inductive ConditionalType
  | none | ifTrue | orElse | elseIf
  deriving Repr, DecidableEq

/-- Only an action with a condition of its own looks at `condExpr`. -/
structure Action where
  cond : ConditionalType
  condExpr : Expression
  expr : Expression
  deriving Repr, DecidableEq

structure Rule where
  expr : Expression
  action : Action
  deriving Repr, DecidableEq

structure State where
  desc : String
  rules : List Rule
  actions : List Action
  goalRule : Nat
  deriving Repr, DecidableEq

/-- The states are found by their names. -/
structure Quest where
  disabled : Bool
  states : List (String × State)
  deriving Repr, DecidableEq

namespace Quest

def findState (quest : Quest) (name : String) : Option State :=
  (quest.states.find? (·.1 = name)).map (·.2)

theorem mem_of_findState {quest : Quest} {name : String} {state : State}
    (h : quest.findState name = some state) : (name, state) ∈ quest.states := by
  obtain ⟨entry, hFound, rfl⟩ := Option.map_eq_some_iff.mp h
  have hName := List.find?_some hFound
  have hEntry : entry.1 = name := of_decide_eq_true hName
  subst hEntry
  exact List.mem_of_find?_eq_some hFound

end Quest

namespace ConditionalType

/-- An action with a condition of its own. -/
def asks : ConditionalType → Bool
  | ifTrue | elseIf => true
  | none | orElse => false

/-- An action that is left out when the condition before it was true. -/
def chained : ConditionalType → Bool
  | elseIf | orElse => true
  | none | ifTrue => false

end ConditionalType

end Etheos.EOPlus
