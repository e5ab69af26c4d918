import Etheos.Quest.Syntax

/-! The check of a quest when its file is loaded. -/
namespace Etheos.Quests

open EOPlus

/-- The actions in `action_argument_info`. -/
inductive ActionName
  | setstate | reset | resetdaily | ending | startquest | resetquest | setqueststate
  | addnpctext | addnpcinput | addnpcchat | showhint | quake | quakeworld
  | setmap | setcoord | playsound | giveexp | giveitem | removeitem | setclass | setrace
  | removekarma | givekarma | settitle | setfiance | setpartner | sethome
  | setstat | givestat | removestat | roll
  deriving Repr, DecidableEq

/-- The rules in `rule_argument_info`. -/
inductive RuleName
  | inputnpc | talkedtonpc | always | donedaily | entermap | entercoord | leavemap | leavecoord
  | killednpcs | killedplayers | gotitems | lostitems | useditem | isgender | isclass | israce
  | iswearing | gotspell | lostspell | usedspell | citizenof | rolled
  | statis | statnot | statgreater | statless | statbetween | statrpn
  deriving Repr, DecidableEq

/-- `info_t`. No function may have any number of arguments. -/
structure ArgumentInfo where
  minArgs : Nat
  maxArgs : Nat
  deriving Repr, DecidableEq

def ActionName.ofString? : String → Option ActionName
  | "setstate" => some setstate
  | "reset" => some reset
  | "resetdaily" => some resetdaily
  | "end" => some ending
  | "startquest" => some startquest
  | "resetquest" => some resetquest
  | "setqueststate" => some setqueststate
  | "addnpctext" => some addnpctext
  | "addnpcinput" => some addnpcinput
  | "addnpcchat" => some addnpcchat
  | "showhint" => some showhint
  | "quake" => some quake
  | "quakeworld" => some quakeworld
  | "setmap" => some setmap
  | "setcoord" => some setcoord
  | "playsound" => some playsound
  | "giveexp" => some giveexp
  | "giveitem" => some giveitem
  | "removeitem" => some removeitem
  | "setclass" => some setclass
  | "setrace" => some setrace
  | "removekarma" => some removekarma
  | "givekarma" => some givekarma
  | "settitle" => some settitle
  | "setfiance" => some setfiance
  | "setpartner" => some setpartner
  | "sethome" => some sethome
  | "setstat" => some setstat
  | "givestat" => some givestat
  | "removestat" => some removestat
  | "roll" => some roll
  | _ => none

def ActionName.info : ActionName → ArgumentInfo
  | reset | resetdaily | ending => ⟨0, 0⟩
  | quake | quakeworld => ⟨0, 1⟩
  | setstate | resetquest | showhint | playsound | giveexp | setclass | setrace | removekarma
  | givekarma | settitle | setfiance | setpartner | sethome | roll => ⟨1, 1⟩
  | startquest | giveitem | removeitem => ⟨1, 2⟩
  | setqueststate | addnpctext | addnpcchat | setstat | givestat | removestat => ⟨2, 2⟩
  | addnpcinput | setmap | setcoord => ⟨3, 3⟩

def RuleName.ofString? : String → Option RuleName
  | "inputnpc" => some inputnpc
  | "talkedtonpc" => some talkedtonpc
  | "always" => some always
  | "donedaily" => some donedaily
  | "entermap" => some entermap
  | "entercoord" => some entercoord
  | "leavemap" => some leavemap
  | "leavecoord" => some leavecoord
  | "killednpcs" => some killednpcs
  | "killedplayers" => some killedplayers
  | "gotitems" => some gotitems
  | "lostitems" => some lostitems
  | "useditem" => some useditem
  | "isgender" => some isgender
  | "isclass" => some isclass
  | "israce" => some israce
  | "iswearing" => some iswearing
  | "gotspell" => some gotspell
  | "lostspell" => some lostspell
  | "usedspell" => some usedspell
  | "citizenof" => some citizenof
  | "rolled" => some rolled
  | "statis" => some statis
  | "statnot" => some statnot
  | "statgreater" => some statgreater
  | "statless" => some statless
  | "statbetween" => some statbetween
  | "statrpn" => some statrpn
  | _ => none

def RuleName.info : RuleName → ArgumentInfo
  | always => ⟨0, 0⟩
  | inputnpc | talkedtonpc | donedaily | entermap | leavemap | killedplayers | isgender | isclass
  | israce | iswearing | lostspell | citizenof | statrpn => ⟨1, 1⟩
  | killednpcs | gotitems | lostitems | useditem | gotspell | usedspell | rolled => ⟨1, 2⟩
  | statis | statnot | statgreater | statless => ⟨2, 2⟩
  | entercoord | leavecoord | statbetween => ⟨3, 3⟩

/-- What is wrong, and the state that it is found in. -/
structure ValidationError where
  what : String
  state : String
  deriving Repr, DecidableEq

/-- The lambda `check`. -/
def check (quest : Quest) (name type : String) (expr : Expression) (info : ArgumentInfo) :
    Except ValidationError Unit :=
  if expr.args.length < info.minArgs then
    .error ⟨type ++ " " ++ expr.function ++ " requires at least " ++ toString info.minArgs ++
      " argument(s)", name⟩
  else if info.maxArgs < expr.args.length then
    .error ⟨type ++ " " ++ expr.function ++ " requires at most " ++ toString info.maxArgs ++
      " argument(s)", name⟩
  else if expr.function = "setstate" then
    let state := lowercase (expr.args.head?.elim "" (·.string))
    match quest.findState state with
    | none => .error ⟨"Unknown quest state: " ++ state, name⟩
    | some _ => .ok ()
  else .ok ()

def checkAction (quest : Quest) (name : String) (action : Action) : Except ValidationError Unit :=
  match ActionName.ofString? action.expr.function with
  | none => .error ⟨"Unknown action: " ++ action.expr.function, name⟩
  | some function => check quest name "Action" action.expr function.info

def checkRule (quest : Quest) (name : String) (rule : Rule) : Except ValidationError Unit :=
  match RuleName.ofString? rule.expr.function with
  | none => .error ⟨"Unknown rule: " ++ rule.expr.function, name⟩
  | some function => check quest name "Rule" rule.expr function.info

def validateState (quest : Quest) (name : String) (state : State) : Except ValidationError Unit := do
  state.actions.forM (checkAction quest name)
  state.rules.forM fun rule => checkAction quest name rule.action
  state.rules.forM (checkRule quest name)

def validateQuest (quest : Quest) : Except ValidationError Unit :=
  quest.states.forM fun (name, state) => validateState quest name state

/-- An action that is known and has the arguments that it reads. -/
def ActionReady (expr : Expression) : Prop :=
  ∃ function, ActionName.ofString? expr.function = some function ∧
    function.info.minArgs ≤ expr.args.length

def RuleReady (expr : Expression) : Prop :=
  ∃ function, RuleName.ofString? expr.function = some function ∧
    function.info.minArgs ≤ expr.args.length

theorem bind_ok {ε : Type} {x y : Except ε Unit} (h : (x >>= fun _ => y) = .ok ()) :
    x = .ok () ∧ y = .ok () := by
  cases x with
  | error e => cases h
  | ok => exact ⟨rfl, h⟩

theorem forM_ok {α ε : Type} {f : α → Except ε Unit} {items : List α}
    (h : items.forM f = .ok ()) : ∀ item ∈ items, f item = .ok () := by
  induction items with
  | nil => exact fun _ hItem => absurd hItem List.not_mem_nil
  | cons first items ih =>
      obtain ⟨hFirst, hRest⟩ := bind_ok h
      exact List.forall_mem_cons.mpr ⟨hFirst, ih hRest⟩

theorem check_ok {quest : Quest} {name type : String} {expr : Expression} {info : ArgumentInfo}
    (h : check quest name type expr info = .ok ()) : info.minArgs ≤ expr.args.length := by
  unfold check at h
  split at h
  · cases h
  · omega

theorem checkAction_ok {quest : Quest} {name : String} {action : Action}
    (h : checkAction quest name action = .ok ()) : ActionReady action.expr := by
  unfold checkAction at h
  split at h
  · cases h
  case h_2 function hFunction => exact ⟨function, hFunction, check_ok h⟩

theorem checkRule_ok {quest : Quest} {name : String} {rule : Rule}
    (h : checkRule quest name rule = .ok ()) : RuleReady rule.expr := by
  unfold checkRule at h
  split at h
  · cases h
  case h_2 function hFunction => exact ⟨function, hFunction, check_ok h⟩

/-- What the check promises about the states of an accepted quest. -/
structure StateReady (state : State) : Prop where
  actions : ∀ action ∈ state.actions, ActionReady action.expr
  rules : ∀ rule ∈ state.rules, RuleReady rule.expr
  ruleActions : ∀ rule ∈ state.rules, ActionReady rule.action.expr

theorem validateState_ok {quest : Quest} {name : String} {state : State}
    (h : validateState quest name state = .ok ()) : StateReady state := by
  obtain ⟨hActions, hRest⟩ := bind_ok h
  obtain ⟨hRuleActions, hRules⟩ := bind_ok hRest
  exact ⟨fun action hAction => checkAction_ok (forM_ok hActions action hAction),
    fun rule hRule => checkRule_ok (forM_ok hRules rule hRule),
    fun rule hRule => checkAction_ok (forM_ok hRuleActions rule hRule)⟩

/-- A quest whose file has been accepted. -/
abbrev AcceptedQuest := { quest : Quest // validateQuest quest = .ok () }

theorem AcceptedQuest.stateReady (quest : AcceptedQuest) {name : String} {state : State}
    (h : (name, state) ∈ quest.1.states) : StateReady state :=
  validateState_ok (forM_ok quest.2 _ h)

end Etheos.Quests
