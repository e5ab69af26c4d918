import Etheos.General.Run
import Etheos.Quest.QuestContext

/-! Runs of quests whose files have been accepted: which arguments are read, and
which names are met. -/
namespace Etheos.Quests

open EOPlus Characters General

/-- Calls of the functions of a context, from outside. -/
inductive Event
  | create (character : Nat) (id : Int) (name : String) (withActions : Bool)
  | setState (this : ContextId) (name : String) (withActions : Bool)
  | loadProgress (this : ContextId) (entries : List (String × Int))
  | forget (character : Nat)
  | checkRules (this : ContextId)
  | usedItem (this : ContextId) (id : Int)
  | usedSpell (this : ContextId) (id : Int)
  | killedNPC (this : ContextId) (id : Int)
  | killedPlayer (this : ContextId)
  | dialogInput (this : ContextId) (link : Int)
  | talkedNPC (this : ContextId) (vendor : Int)
  | report (this : ContextId)

section Runs

variable (files : Files) (env : Environment) (v : Virtual Memory)

/-- A new context is put among the quests of its character before its actions
are run, or behind its selection where they are not run. -/
def create (character : Nat) (id : Int) (name : String) (withActions : Bool) : Prog Memory Unit := do
  if (files id).isSome then
    let context ← newContext character id
    if withActions then
      putQuest character id (some context)
      setState v context name true
    else
      setState v context name false
      putQuest character id (some context)
  else return ()

/-- `quests.clear()`, before the quests are loaded again. -/
def clearQuests (character : Nat) : Prog Memory Unit :=
  update fun memory =>
    { memory with quests := Function.update memory.quests character fun _ => none }

/-- `UnserializeProgress`, with any entries. -/
def unserializeProgress (this : ContextId) (entries : List (String × Int)) : Prog Memory Unit :=
  modifyRecord this fun record => { record with progress := entries }

/-- The report is asked for while the quest is going on. -/
def reportProgress (this : ContextId) : Prog Memory Unit := do
  if (files.quest this).disabled ∨ (← getContext this).finished then return ()
  else discard (progress env v this)

def Event.run : Event → Prog Memory Unit
  | create character id name withActions => Quests.create files v character id name withActions
  | setState this name withActions => EOPlus.setState v this name withActions
  | loadProgress this entries => unserializeProgress this entries
  | forget character => clearQuests character
  | checkRules this => discard (EOPlus.checkRules v this)
  | usedItem this id => Quests.usedItem files v this (toShort id)
  | usedSpell this id => Quests.usedSpell files v this (toShort id)
  | killedNPC this id => Quests.killedNPC files v this (toShort id)
  | killedPlayer this => Quests.killedPlayer files v this
  | dialogInput this link => discard (Quests.dialogInput files v this link)
  | talkedNPC this vendor => discard (Quests.talkedNPC files v this vendor)
  | report this => reportProgress files env v this

/-- The next event comes also after an exception. -/
def step (s : Runtime Memory) (event : Event) : Option (Runtime Memory) :=
  match event.run files env v s with
  | .ok _ s' => some s'
  | .error _ s' => some s'

end Runs

/-- The server before the first quest. -/
def start : Runtime Memory where
  recursiveDepth := 0
  contexts _ := ⟨none, "", false⟩
  rest := ⟨fun _ => ⟨0, "", [], []⟩, fun _ _ => none, 0, 0, 0, 0⟩
  nesting := 0
  deepest := 0
  changes := 0

/-- No missing argument has been read, and no unknown name has been met. -/
def ArgumentsFound (s : Runtime Memory) : Prop :=
  s.rest.wrongReads = 0 ∧ s.rest.unknownNames = 0

/-- What the check of a quest leaves out: conditions are not looked at, a rule
that counts needs a second argument although the check makes it optional, and so
does a goal of items or of a spell. -/
structure Supported (quest : Quest) : Prop where
  condition {name : String} {state : State} {action : Action} : (name, state) ∈ quest.states →
    action ∈ state.actions → action.cond.asks = true → RuleReady action.condExpr
  counted {name : String} {state : State} {rule : Rule} : (name, state) ∈ quest.states →
    rule ∈ state.rules → rule.expr.function ∈ ["useditem", "usedspell", "killednpcs"] →
      ∀ id, rule.expr.args = [id] → toShort id.int ≠ id.int
  goal {name : String} {state : State} {rule : Rule} : (name, state) ∈ quest.states →
    state.rules[state.goalRule]? = some rule → rule.expr.function ∈ ["gotitems", "gotspell"] →
      2 ≤ rule.expr.args.length

/-- A state that a context may be in. -/
def StateOf (files : Files) (this : ContextId) (state : State) : Prop :=
  ∃ name, (name, state) ∈ (files.quest this).states

structure Clean (files : Files) (s : Runtime Memory) : Prop where
  found : ArgumentsFound s
  states (this : ContextId) (state : State) :
    (s.contexts this).state = some state → StateOf files this state

def cleanliness (files : Files) : Discipline Memory where
  holds _ := Clean files
  thrown _ _ := Clean files
  state := StateOf files
  selected hs h := hs.states _ _ h
  setContext {_ _ this _} hs h := by
    refine ⟨hs.found, fun other state hState => ?_⟩
    by_cases hSame : other = this
    · subst hSame
      exact h state ((congrArg Context.state (Function.update_self other _ _)).symm.trans hState)
    · exact hs.states other state
        ((congrArg Context.state (Function.update_of_ne hSame _ _)).symm.trans hState)
  push hs _ := ⟨hs.found, hs.states⟩
  pop hs := ⟨hs.found, hs.states⟩
  unwind hs := ⟨hs.found, hs.states⟩
  change hs := ⟨hs.found, hs.states⟩
  raise hs := hs

/-- The quests that are not switched off are supported. -/
def AllSupported (files : Files) : Prop :=
  ∀ id quest, files id = some quest → quest.1.disabled = false → Supported quest.1

abbrev Keeps {α : Type} (files : Files) (m : Nat) (x : Prog Memory α) : Prop :=
  (cleanliness files).Keeps m x

section Parts

variable {files : Files} {env : Environment} {v : Virtual Memory} {this : ContextId} {m : Nat}

theorem update_keeps {f : Memory → Memory} (hReads : ∀ memory, (f memory).wrongReads = memory.wrongReads)
    (hNames : ∀ memory, (f memory).unknownNames = memory.unknownNames) : Keeps files m (update f) :=
  Triple.modify fun s hs =>
    ⟨⟨(hReads s.rest).trans hs.found.1, (hNames s.rest).trans hs.found.2⟩, hs.states⟩

theorem readMemory_keeps {α : Type} {f : Memory → α} : Keeps files m (readMemory f) :=
  Triple.read fun _ hs => Triple.ret fun _ hEq => hEq ▸ hs

theorem arg_keeps {args : List Variant} {i : Nat} (h : i < args.length) :
    Keeps files m (arg args i) := by
  unfold arg
  rw [List.getElem?_eq_getElem h]
  exact .ret

theorem modifyRecord_keeps {f : Record → Record} : Keeps files m (modifyRecord this f) :=
  update_keeps (fun _ => rfl) fun _ => rfl

theorem progressAt_keeps {key : String} : Keeps files m (progressAt this key) :=
  readMemory_keeps.bind fun _ => modifyRecord_keeps.bind fun _ => .ret

theorem countProgress_keeps {key : String} : Keeps files m (countProgress this key) :=
  readMemory_keeps.bind fun _ => modifyRecord_keeps.bind fun _ => .ret

theorem putQuest_keeps {character : Nat} {id : Int} {context : Option ContextId} :
    Keeps files m (putQuest character id context) :=
  update_keeps (fun _ => rfl) fun _ => rfl

theorem clearQuests_keeps {character : Nat} : Keeps files m (clearQuests character) :=
  update_keeps (fun _ => rfl) fun _ => rfl

theorem unserializeProgress_keeps {entries : List (String × Int)} :
    Keeps files m (unserializeProgress this entries) :=
  modifyRecord_keeps

theorem resetQuest_keeps {id : Int} : Keeps files m (resetQuest this id) :=
  readMemory_keeps.bind fun _ => putQuest_keeps

theorem newContext_keeps {character : Nat} {id : Int} : Keeps files m (newContext character id) := by
  refine readMemory_keeps.bind fun serial => Discipline.Keeps.bind ?_ fun _ => ?_
  · exact update_keeps (fun _ => rfl) fun _ => rfl
  · refine (Discipline.Keeps.setContext (fun st h => by cases h)).bind fun _ => ?_
    exact modifyRecord_keeps.bind fun _ => .ret

theorem unless_disabled {α : Type} {x y : Prog Memory α} (hx : Keeps files m x)
    (hy : (files.quest this).disabled = false → Keeps files m y) :
    Keeps files m (if (files.quest this).disabled then x else y) :=
  .branch (fun _ => hx) fun h => hy (eq_false_of_ne_true h)

theorem addDialog_keeps {action : Action} (hReady : ActionReady action.expr) :
    Keeps files m (addDialog this action) := by
  obtain ⟨function, hFunction, hArgs⟩ := hReady
  refine Discipline.Keeps.branch (fun hText => ?_) fun _ =>
    Discipline.Keeps.branch (fun hInput => ?_) fun _ => .ret
  · rw [hText] at hFunction
    cases hFunction
    refine (arg_keeps (Nat.lt_of_lt_of_le (by decide) hArgs)).bind fun vendor => ?_
    refine (arg_keeps (Nat.lt_of_lt_of_le (by decide) hArgs)).bind fun text => ?_
    exact modifyRecord_keeps
  · rw [hInput] at hFunction
    cases hFunction
    refine (arg_keeps (Nat.lt_of_lt_of_le (by decide) hArgs)).bind fun vendor => ?_
    refine (arg_keeps (Nat.lt_of_lt_of_le (by decide) hArgs)).bind fun link => ?_
    refine (arg_keeps (Nat.lt_of_lt_of_le (by decide) hArgs)).bind fun text => ?_
    exact modifyRecord_keeps

theorem addDialogs_keeps {actions : List Action} (h : ∀ action ∈ actions, ActionReady action.expr) :
    Keeps files m (addDialogs this actions) := by
  induction actions with
  | nil => exact .ret
  | cons action actions ih =>
      obtain ⟨hFirst, hRest⟩ := List.forall_mem_cons.mp h
      exact (addDialog_keeps hFirst).bind fun _ => ih hRest

/-- Only states of accepted quests are selected. -/
theorem StateOf.ready {state : State} (h : StateOf files this state) : StateReady state := by
  obtain ⟨name, hState⟩ := h
  unfold Files.quest at hState
  cases hFile : files this.quest with
  | none =>
      rw [hFile] at hState
      cases hState
  | some quest =>
      rw [hFile] at hState
      exact quest.stateReady hState

theorem beginState_keeps {name : String} {state : State} (h : StateOf files this state) :
    Keeps files m (beginState files this name state) :=
  modifyRecord_keeps.bind fun _ =>
    unless_disabled .ret fun _ => addDialogs_keeps h.ready.actions

end Parts

/-- The virtual functions as they are called again. -/
structure Ready (files : Files) (v : Virtual Memory) : Prop where
  quest : v.quest = files.quest
  begins : v.beginState = beginState files
  admits (m : Nat) : (cleanliness files).Admits v m

section Functions

variable {files : Files} {env : Environment} {v : Virtual Memory} {this : ContextId} {m : Nat}
  (hv : Ready files v)

include hv

theorem setState_clean (name : String) (withActions : Bool) :
    Keeps files m (setState v this name withActions) := by
  refine Discipline.setState_keeps (hv.admits (m + 1)) (fun name state hFound => ?_)
    (fun name state hState => ?_) name withActions
  · rw [hv.quest] at hFound
    exact ⟨name, Quest.mem_of_findState hFound⟩
  · rw [hv.begins]
    exact beginState_keeps hState

theorem checkAll_clean (contexts : List ContextId) : Keeps files m (checkAll v contexts) := by
  induction contexts with
  | nil => exact .ret
  | cons context contexts ih =>
      exact (Discipline.checkRules_keeps (hv.admits (m + 1))).discard.bind fun _ => ih

theorem ask_clean {request : Request} : Keeps files m (ask env v this request) := by
  refine readMemory_keeps.bind fun now => Discipline.Keeps.bind ?_ fun _ => ?_
  · exact update_keeps (fun _ => rfl) fun _ => rfl
  · refine (checkAll_clean hv (env now this request).checks).bind fun _ => ?_
    cases (env now this request).thrown with
    | none => exact .ret
    | some what => exact .raise

theorem perform_clean {request : Request} : Keeps files m (perform env v this request) :=
  (ask_clean hv).discard.bind fun _ => .ret

theorem changeState_clean (name : String) : Keeps files m (changeState v this name) :=
  (setState_clean hv name true).bind fun _ => .ret

omit hv in
theorem optionalArg_clean {args : List Variant} {i : Nat} {value : Int} :
    Keeps files m (optionalArg args i value) :=
  .branch (fun h => (arg_keeps h).bind fun _ => .ret) fun _ => .ret

omit hv in
theorem startState_clean {args : List Variant} : Keeps files m (startState args) :=
  .branch (fun h => (arg_keeps h).bind fun _ => .ret) fun _ => .ret

omit hv in
theorem getContext_clean {α : Type} {f : Context → Prog Memory α}
    (hf : ∀ context, Keeps files m (f context)) : Keeps files m (getContext this >>= f) :=
  Discipline.Keeps.getContext fun context _ => hf context

theorem startQuest_clean {args : List Variant} (h : 1 ≤ args.length) :
    Keeps files m (startQuest files v this args) := by
  refine (arg_keeps h).bind fun id => readMemory_keeps.bind fun found => ?_
  cases found with
  | none =>
      refine Discipline.Keeps.branch (fun _ => ?_) fun _ => .ret
      refine readMemory_keeps.bind fun character => newContext_keeps.bind fun context => ?_
      refine putQuest_keeps.bind fun _ => startState_clean.bind fun state => ?_
      exact (setState_clean hv state true).bind fun _ => .ret
  | some context =>
      refine getContext_clean fun _ => Discipline.Keeps.branch (fun _ => ?_) fun _ => .ret
      refine startState_clean.bind fun state => ?_
      exact (setState_clean hv state true).bind fun _ => .ret

theorem resetQuestAction_clean {args : List Variant} (h : 1 ≤ args.length) :
    Keeps files m (resetQuestAction v this args) := by
  refine (arg_keeps h).bind fun id => readMemory_keeps.bind fun found => ?_
  cases found with
  | none => exact .ret
  | some context =>
      refine readMemory_keeps.bind fun _ => Discipline.Keeps.branch (fun _ => ?_) fun _ => ?_
      · exact (setState_clean hv "done" true).bind fun _ => .ret
      · exact resetQuest_keeps.bind fun _ => .ret

theorem setQuestState_clean {args : List Variant} (h : 2 ≤ args.length) :
    Keeps files m (setQuestState v this args) := by
  refine (arg_keeps (by omega)).bind fun id => (arg_keeps h).bind fun state => ?_
  refine readMemory_keeps.bind fun found => ?_
  cases found with
  | none => exact .ret
  | some context => exact (setState_clean hv state.string true).bind fun _ => .ret

theorem quakeAction_clean {request : Int → Request} {args : List Variant} :
    Keeps files m (quakeAction env v this request args) :=
  .branch (fun h => (arg_keeps h).bind fun _ => perform_clean hv) fun _ => perform_clean hv

theorem warpAction_clean {args : List Variant} (h : 3 ≤ args.length) :
    Keeps files m (warpAction env v this args) := by
  refine (arg_keeps (by omega)).bind fun map => (arg_keeps (by omega)).bind fun x => ?_
  exact (arg_keeps h).bind fun y => perform_clean hv

theorem numberAction_clean {request : Int → Request} {args : List Variant} (h : 1 ≤ args.length) :
    Keeps files m (numberAction env v this request args) :=
  (arg_keeps h).bind fun _ => perform_clean hv

theorem textAction_clean {request : String → Request} {args : List Variant} (h : 1 ≤ args.length) :
    Keeps files m (textAction env v this request args) :=
  (arg_keeps h).bind fun _ => perform_clean hv

theorem itemAction_clean {request : Int → Int → Request} {args : List Variant}
    (h : 1 ≤ args.length) : Keeps files m (itemAction env v this request args) :=
  (arg_keeps h).bind fun _ => optionalArg_clean.bind fun _ => perform_clean hv

theorem statAction_clean {request : String → Int → Request} {args : List Variant}
    (h : 2 ≤ args.length) : Keeps files m (statAction env v this request args) := by
  refine (arg_keeps (by omega)).bind fun stat => (arg_keeps h).bind fun value => ?_
  exact (ask_clean hv).bind fun _ => .branch (fun _ => .raise) fun _ => .ret

/-- An action with its arguments reads no other ones. -/
theorem runFunction_clean {function : ActionName} {args : List Variant}
    (h : function.info.minArgs ≤ args.length) :
    Keeps files m (runFunction files env v this function args) := by
  unfold runFunction
  cases function with
  | setstate => exact (arg_keeps h).bind fun state => changeState_clean hv _
  | reset =>
      refine readMemory_keeps.bind fun _ => Discipline.Keeps.branch (fun _ => ?_) fun _ => ?_
      · exact resetQuest_keeps.bind fun _ => .ret
      · exact changeState_clean hv "done"
  | resetdaily =>
      refine (ask_clean hv).bind fun _ => modifyRecord_keeps.bind fun _ => ?_
      exact countProgress_keeps.discard.bind fun _ => changeState_clean hv "done"
  | ending => exact changeState_clean hv "end"
  | startquest => exact startQuest_clean hv h
  | resetquest => exact resetQuestAction_clean hv h
  | setqueststate => exact setQuestState_clean hv h
  | addnpctext | addnpcinput | addnpcchat => exact .ret
  | quake | quakeworld => exact quakeAction_clean hv
  | setmap | setcoord => exact warpAction_clean hv h
  | giveitem | removeitem => exact itemAction_clean hv h
  | setstat | givestat | removestat => exact statAction_clean hv h
  | showhint | settitle | setfiance | setpartner | sethome => exact textAction_clean hv h
  | playsound | giveexp | setclass | setrace | removekarma | givekarma =>
      exact numberAction_clean hv h
  | roll =>
      refine (arg_keeps h).bind fun sides => (ask_clean hv).bind fun value => ?_
      exact modifyRecord_keeps.bind fun _ => .ret

theorem doAction_clean {action : Action} (hReady : ActionReady action.expr) :
    Keeps files m (doAction files env v this action) := by
  obtain ⟨function, hFunction, hArgs⟩ := hReady
  refine unless_disabled .ret fun _ => ?_
  rw [hFunction]
  exact runFunction_clean hv hArgs

theorem isArg_clean {request : Request} {args : List Variant} {i : Nat} (h : i < args.length) :
    Keeps files m (isArg env v this request args i) :=
  (arg_keeps h).bind fun _ => (ask_clean hv).bind fun _ => .ret

theorem askAbout_clean {request : Int → Request} {args : List Variant} (h : 1 ≤ args.length) :
    Keeps files m (askAbout env v this request args) :=
  (arg_keeps h).bind fun _ => (ask_clean hv).bind fun _ => .ret

theorem askFormula_clean {operator : String} {args : List Variant} (h : 2 ≤ args.length) :
    Keeps files m (askFormula env v this operator args) := by
  refine (arg_keeps h).bind fun value => (arg_keeps (by omega)).bind fun stat => ?_
  exact (ask_clean hv).bind fun _ => .ret

theorem hasItems_clean {args : List Variant} (h : 1 ≤ args.length) :
    Keeps files m (hasItems env v this args) :=
  (arg_keeps h).bind fun _ => (ask_clean hv).bind fun _ => optionalArg_clean.bind fun _ => .ret

theorem gotspell_clean {args : List Variant} (h : 1 ≤ args.length) :
    Keeps files m (evaluate env v this .gotspell args) := by
  refine (askAbout_clean hv h).bind fun _ => Discipline.Keeps.branch (fun _ => ?_) fun _ => .ret
  refine Discipline.Keeps.branch (fun _ => .ret) fun hTwo => ?_
  refine (arg_keeps h).bind fun id => (arg_keeps (Nat.not_lt.mp hTwo)).bind fun level => ?_
  exact (ask_clean hv).bind fun _ => .ret

omit hv in
theorem rolled_clean {args : List Variant} (h : 1 ≤ args.length) :
    Keeps files m (evaluate env v this .rolled args) := by
  refine progressAt_keeps.bind fun roll => (arg_keeps h).bind fun low => ?_
  refine Discipline.Keeps.branch (fun _ => .ret) fun hTwo => ?_
  refine Discipline.Keeps.branch (fun _ => ?_) fun _ => .ret
  exact (arg_keeps (Nat.not_lt.mp hTwo)).bind fun _ => .ret

theorem donedaily_clean {args : List Variant} (h : 1 ≤ args.length) :
    Keeps files m (evaluate env v this .donedaily args) := by
  refine (ask_clean hv).bind fun today => progressAt_keeps.bind fun _ => ?_
  refine Discipline.Keeps.branch (fun _ => ?_) fun _ => ?_
  · exact (arg_keeps h).bind fun times => progressAt_keeps.bind fun _ => .ret
  · exact modifyRecord_keeps.bind fun _ => modifyRecord_keeps.bind fun _ => .ret

theorem statbetween_clean {args : List Variant} (h : 3 ≤ args.length) :
    Keeps files m (evaluate env v this .statbetween args) := by
  refine (arg_keeps (by omega)).bind fun low => (arg_keeps (by omega)).bind fun stat => ?_
  exact (arg_keeps h).bind fun high => (ask_clean hv).bind fun _ => .ret

/-- A rule with its arguments reads no other ones. -/
theorem evaluate_clean {function : RuleName} {args : List Variant}
    (h : function.info.minArgs ≤ args.length) :
    Keeps files m (evaluate env v this function args) := by
  cases function with
  | gotspell => exact gotspell_clean hv h
  | rolled => exact rolled_clean h
  | donedaily => exact donedaily_clean hv h
  | statbetween => exact statbetween_clean hv h
  | entercoord =>
      have h : 3 ≤ args.length := h
      refine (isArg_clean hv (by omega)).bind fun _ => .branch (fun _ => ?_) fun _ => .ret
      refine (isArg_clean hv (by omega)).bind fun _ => .branch (fun _ => ?_) fun _ => .ret
      exact isArg_clean hv h
  | leavecoord =>
      have h : 3 ≤ args.length := h
      refine (isArg_clean hv (by omega)).bind fun _ => .branch (fun _ => ?_) fun _ => .ret
      refine (isArg_clean hv (by omega)).bind fun _ => .branch (fun _ => ?_) fun _ => .ret
      exact (isArg_clean hv h).bind fun _ => .ret
  | entermap | isgender | isclass | israce => exact isArg_clean hv h
  | leavemap => exact (isArg_clean hv h).bind fun _ => .ret
  | gotitems => exact hasItems_clean hv h
  | lostitems => exact (hasItems_clean hv h).bind fun _ => .ret
  | lostspell => exact (askAbout_clean hv h).bind fun _ => .ret
  | iswearing => exact askAbout_clean hv h
  | citizenof | statrpn => exact (arg_keeps h).bind fun _ => (ask_clean hv).bind fun _ => .ret
  | statis | statnot | statgreater | statless => exact askFormula_clean hv h
  | always | inputnpc | talkedtonpc | killednpcs | killedplayers | useditem | usedspell =>
      exact .ret

theorem checkRuleOf_clean {expr : Expression} (hReady : RuleReady expr) :
    Keeps files m (checkRuleOf files env v this expr) := by
  obtain ⟨function, hFunction, hArgs⟩ := hReady
  refine unless_disabled .ret fun _ => ?_
  rw [hFunction]
  exact evaluate_clean hv hArgs

end Functions

section Supported

variable {files : Files} {env : Environment} {v : Virtual Memory} {this : ContextId} {m : Nat}

theorem AllSupported.quest (h : AllSupported files) (hOn : (files.quest this).disabled = false) :
    Supported (files.quest this) := by
  unfold Files.quest at hOn ⊢
  cases hFile : files this.quest with
  | none =>
      rw [hFile] at hOn
      cases hOn
  | some quest =>
      rw [hFile] at hOn
      exact h this.quest quest hFile hOn

theorem condition_clean (h : AllSupported files) (hv : Ready files v) {state : State}
    {action : Action} (hState : StateOf files this state) (hAction : action ∈ state.actions)
    (hAsks : action.cond.asks = true) :
    Keeps files m (checkRuleOf files env v this action.condExpr) := by
  cases hOn : (files.quest this).disabled with
  | true =>
      unfold checkRuleOf
      rw [if_pos hOn]
      exact .ret
  | false =>
      obtain ⟨name, hName⟩ := hState
      exact checkRuleOf_clean hv ((h.quest hOn).condition hName hAction hAsks)

theorem questContext_ready (h : AllSupported files) (fuel : Nat) :
    Ready files (questContext files env fuel) := by
  induction fuel with
  | zero =>
      have hGivenUp (m : Nat) : Keeps files m (throw .exhausted : Prog Memory Bool) :=
        Triple.raise fun _ hs => hs
      exact ⟨rfl, rfl, fun m => ⟨fun _ _ => hGivenUp m, fun _ _ _ => hGivenUp m,
        fun _ _ => hGivenUp m, fun _ _ => hGivenUp m⟩⟩
  | succ fuel ih =>
      refine ⟨rfl, rfl, fun m => ⟨fun hState hAction => ?_, fun hState hAction hAsks => ?_,
        fun hState hRule => ?_, fun hState hRule => ?_⟩⟩
      · exact doAction_clean ih (hState.ready.actions _ hAction)
      · exact condition_clean h ih hState hAction hAsks
      · exact checkRuleOf_clean ih (hState.ready.rules _ hRule)
      · exact doAction_clean ih (hState.ready.ruleActions _ hRule)

/-- A known rule has the arguments that the check asks for. -/
theorem StateOf.ruleArgs {state : State} {rule : Rule} {function : RuleName}
    (hState : StateOf files this state) (hRule : rule ∈ state.rules)
    (hFunction : RuleName.ofString? rule.expr.function = some function) :
    function.info.minArgs ≤ rule.expr.args.length := by
  obtain ⟨other, hOther, hArgs⟩ := hState.ready.rules rule hRule
  rw [hFunction] at hOther
  cases hOther
  exact hArgs

/-- Where the first argument is the number of the event, there is a second one. -/
theorem countedCheck_clean (h : AllSupported files) (hOn : (files.quest this).disabled = false)
    {state : State} {rule : Rule} (hState : StateOf files this state) (hRule : rule ∈ state.rules)
    (hCounted : rule.expr.function ∈ ["useditem", "usedspell", "killednpcs"])
    (hArgs : 1 ≤ rule.expr.args.length) (id amount : Int) :
    Keeps files m (do
      if (← arg rule.expr.args 0).int = toShort id then
        return (← arg rule.expr.args 1).int ≤ amount
      else return false : Prog Memory Bool) := by
  obtain ⟨name, hName⟩ := hState
  have hLong := (h.quest hOn).counted hName hRule hCounted
  cases hCase : rule.expr.args with
  | nil =>
      rw [hCase] at hArgs
      cases hArgs
  | cons first rest =>
      cases rest with
      | nil =>
          refine Discipline.Keeps.branch (fun hSame => ?_) fun _ => .ret
          refine absurd ?_ (hLong first hCase)
          rw [hSame, toShort_toShort]
      | cons second rest =>
          refine Discipline.Keeps.branch (fun _ => ?_) fun _ => .ret
          exact .ret

theorem counted_clean (h : AllSupported files) (hv : Ready files v) {rule : String}
    {function : RuleName} (hFunction : RuleName.ofString? rule = some function)
    (hArgs : 1 ≤ function.info.minArgs) (hCounted : rule ∈ ["useditem", "usedspell", "killednpcs"])
    (id : Int) : Keeps files m (counted files v this rule (toShort id)) := by
  refine unless_disabled .ret fun hOn => ?_
  refine Discipline.Keeps.bind (Discipline.queryRule_keeps ?_) fun check => ?_
  · intro state hState checked hChecked hName
    have hEnough := hState.ruleArgs hChecked (hName ▸ hFunction)
    exact (arg_keeps (by omega)).bind fun _ => .ret
  · have hTrigger (amount : Int) : Keeps files m (do
        let triggered ← triggerRule v this rule fun args => do
          if (← arg args 0).int = toShort id then return (← arg args 1).int ≤ amount else return false
        if triggered then eraseProgress this (rule ++ "/" ++ toString (toShort id)) else return ()) := by
      refine Discipline.Keeps.bind (Discipline.triggerRule_keeps (hv.admits m) ?_) fun _ => ?_
      · intro state hState checked hChecked hName
        have hEnough := hState.ruleArgs hChecked (hName ▸ hFunction)
        exact countedCheck_clean h hOn hState hChecked (hName ▸ hCounted) (by omega) id amount
      · exact .branch (fun _ => modifyRecord_keeps) fun _ => .ret
    exact .branch (fun _ => countProgress_keeps.bind hTrigger) fun _ => hTrigger 0

theorem killedPlayer_clean (hv : Ready files v) : Keeps files m (killedPlayer files v this) := by
  refine unless_disabled .ret fun _ => ?_
  refine Discipline.Keeps.bind (Discipline.queryRule_keeps fun _ _ _ _ _ => .ret) fun check => ?_
  have hTrigger (amount : Int) : Keeps files m (do
      let triggered ← triggerRule v this "killedplayers" fun args =>
        return (← arg args 0).int ≤ amount
      if triggered then eraseProgress this "killedplayers" else return ()) := by
    refine Discipline.Keeps.bind (Discipline.triggerRule_keeps (hv.admits m) ?_) fun _ => ?_
    · intro state hState checked hChecked hName
      have hKnown : RuleName.ofString? checked.expr.function = some .killedplayers := hName ▸ rfl
      exact (arg_keeps (hState.ruleArgs hChecked hKnown)).bind fun _ => .ret
    · exact .branch (fun _ => modifyRecord_keeps) fun _ => .ret
  exact .branch (fun _ => countProgress_keeps.bind hTrigger) fun _ => hTrigger 0

theorem answered_clean (hv : Ready files v) {rule : String} {function : RuleName}
    (hFunction : RuleName.ofString? rule = some function) (hArgs : 1 ≤ function.info.minArgs)
    (id : Int) : Keeps files m (answered files v this rule id) := by
  refine unless_disabled .ret fun _ => Discipline.triggerRule_keeps (hv.admits m) ?_
  intro state hState checked hChecked hName
  have hEnough := hState.ruleArgs hChecked (hName ▸ hFunction)
  exact (arg_keeps (by omega)).bind fun _ => .ret

theorem countedGoal_clean {icon : BookIcon} {key : String} {goal : Int} :
    Keeps files m (countedGoal this icon key goal) :=
  readMemory_keeps.bind fun _ => .ret

/-- The report of a goal reads a second argument for items and spells only. -/
theorem goalProgress_clean (hv : Ready files v) {goal : Expression} (hReady : RuleReady goal)
    (hLong : goal.function ∈ ["gotitems", "gotspell"] → 2 ≤ goal.args.length) :
    Keeps files m (goalProgress env v this goal) := by
  obtain ⟨function, hFunction, hArgs⟩ := hReady
  have hItem (name : String) (known : RuleName) (hName : goal.function = name)
      (hKnown : RuleName.ofString? name = some known) : known.info.minArgs ≤ goal.args.length := by
    rw [hName, hKnown] at hFunction
    cases hFunction
    exact hArgs
  refine .branch (fun hGot => ?_) fun _ => .branch (fun hUsed => ?_) fun _ =>
    .branch (fun hKilled => ?_) fun _ => .branch (fun hPlayers => ?_) fun _ =>
      .branch (fun _ => .ret) fun _ => .ret
  · have hTwo := hLong (by simpa using hGot)
    refine (arg_keeps hTwo).bind fun most => (arg_keeps (by omega)).bind fun id => ?_
    exact (ask_clean hv).bind fun held => optionalArg_clean.bind fun _ => .ret
  · have hOne : 1 ≤ goal.args.length :=
      hUsed.elim (fun h => hItem "useditem" .useditem h rfl) fun h => hItem "usedspell" .usedspell h rfl
    exact (arg_keeps hOne).bind fun id => optionalArg_clean.bind fun _ => countedGoal_clean
  · have hOne : 1 ≤ goal.args.length := hItem "killednpcs" .killednpcs hKilled rfl
    exact (arg_keeps hOne).bind fun id => optionalArg_clean.bind fun _ => countedGoal_clean
  · have hOne : 1 ≤ goal.args.length := hItem "killedplayers" .killedplayers hPlayers rfl
    exact (arg_keeps hOne).bind fun amount => countedGoal_clean

theorem progress_clean (h : AllSupported files) (hv : Ready files v)
    (hOn : (files.quest this).disabled = false) : Keeps files m (progress env v this) := by
  have hContext : (getGoal this : Prog Memory (Option Rule)) = getContext this >>= fun context =>
      return context.state.bind fun state => state.rules[state.goalRule]? := rfl
  unfold progress
  rw [hContext, bind_assoc]
  refine Discipline.Keeps.getContext fun context hSelected => ?_
  rw [pure_bind]
  cases hGoal : context.state.bind fun state => state.rules[state.goalRule]? with
  | none => exact .ret
  | some goal =>
      obtain ⟨state, hState, hRule⟩ := Option.bind_eq_some_iff.mp hGoal
      have hKnown := hSelected state hState
      have hReady := hKnown.ready.rules goal (List.mem_of_getElem? hRule)
      obtain ⟨name, hName⟩ := hKnown
      exact goalProgress_clean hv hReady ((h.quest hOn).goal hName hRule)

theorem create_clean (hv : Ready files v) (character : Nat) (id : Int) (name : String)
    (withActions : Bool) : Keeps files m (create files v character id name withActions) := by
  refine .branch (fun _ => newContext_keeps.bind fun context => ?_) fun _ => .ret
  refine .branch (fun _ => ?_) fun _ => ?_
  · exact putQuest_keeps.bind fun _ => setState_clean hv name true
  · exact (setState_clean hv name false).bind fun _ => putQuest_keeps

theorem reportProgress_clean (h : AllSupported files) (hv : Ready files v) :
    Keeps files m (reportProgress files env v this) := by
  refine getContext_clean fun context => .branch (fun _ => .ret) fun hGoing => ?_
  rw [not_or] at hGoing
  exact (progress_clean h hv (eq_false_of_ne_true hGoing.1)).discard

theorem event_clean (h : AllSupported files) (hv : Ready files v) (event : Event) :
    Keeps files m (event.run files env v) := by
  cases event with
  | create character id name withActions => exact create_clean hv character id name withActions
  | setState this name withActions => exact setState_clean hv name withActions
  | loadProgress this entries => exact unserializeProgress_keeps
  | forget character => exact clearQuests_keeps
  | checkRules this => exact (Discipline.checkRules_keeps (hv.admits (m + 1))).discard
  | usedItem this id =>
      have hRule : RuleName.ofString? "useditem" = some .useditem := rfl
      exact counted_clean h hv hRule (by decide) (by decide) id
  | usedSpell this id =>
      have hRule : RuleName.ofString? "usedspell" = some .usedspell := rfl
      exact counted_clean h hv hRule (by decide) (by decide) id
  | killedNPC this id =>
      have hRule : RuleName.ofString? "killednpcs" = some .killednpcs := rfl
      exact counted_clean h hv hRule (by decide) (by decide) id
  | killedPlayer this => exact killedPlayer_clean hv
  | dialogInput this link =>
      have hRule : RuleName.ofString? "inputnpc" = some .inputnpc := rfl
      exact (answered_clean hv hRule (by decide) link).discard
  | talkedNPC this vendor =>
      have hRule : RuleName.ofString? "talkedtonpc" = some .talkedtonpc := rfl
      exact (answered_clean hv hRule (by decide) vendor).discard
  | report this => exact reportProgress_clean h hv

theorem step_clean (h : AllSupported files) (hv : Ready files v) {s s' : Runtime Memory}
    {event : Event} (hs : Clean files s) (hStep : step files env v s event = some s') :
    Clean files s' := by
  have hKeeps : Keeps files 0 (event.run files env v) := event_clean h hv event
  have hEvent := hKeeps s hs
  unfold step at hStep
  cases hRun : event.run files env v s with
  | ok a s₁ =>
      rw [hRun] at hEvent hStep
      cases hStep
      exact hEvent
  | error e s₁ =>
      rw [hRun] at hEvent hStep
      cases hStep
      exact hEvent

theorem start_clean : Clean files start := ⟨⟨rfl, rfl⟩, fun _ _ h => by cases h⟩

end Supported

/-- In every run over accepted files whose quests are supported, no missing
argument is read and no unknown name is met. -/
theorem argumentsFound_of_supported (files : Files) (env : Environment) (fuel : Nat)
    (events : List Event) (h : AllSupported files) :
    Always (step files env (questContext files env fuel)) ArgumentsFound start events := by
  have hReady : Ready files (questContext files env fuel) := questContext_ready h fuel
  have hAlways : Always (step files env (questContext files env fuel)) (Clean files) start events :=
    always_of_invariant (fun _ _ _ hs hStep => step_clean h hReady hs hStep) start_clean events
  exact hAlways.mono fun _ hs => hs.found

/-- A quest with one state, which the use of an item ends. -/
def itemQuest (args : List Variant) : Quest :=
  ⟨false, [("begin", ⟨"", [⟨⟨"useditem", args⟩, ⟨.none, ⟨"", []⟩, ⟨"end", []⟩⟩⟩], [], 0⟩)]⟩

/-- The item 5, once. -/
def onceQuest : AcceptedQuest := ⟨itemQuest [⟨5, "5"⟩], by decide⟩

/-- The item 5, twice. -/
def twiceQuest : AcceptedQuest := ⟨itemQuest [⟨5, "5"⟩, ⟨2, "2"⟩], by decide⟩

/-- Every request is answered with zero, and no rules are checked on the way. -/
def silent : Environment := fun _ _ _ => ⟨0, [], none⟩

/-- The quest is the only one, with the number 1. -/
def only (quest : AcceptedQuest) : Files := fun id => if id = 1 then some quest else none

theorem twiceQuest_supported : AllSupported (only twiceQuest) := by
  intro id quest hQuest _
  unfold only at hQuest
  split at hQuest
  · cases hQuest
    refine ⟨fun hState hAction => ?_, fun hState hRule _ id hArgs => ?_, fun hState hRule hGoal => ?_⟩
    · cases List.mem_singleton.mp hState
      cases hAction
    · cases List.mem_singleton.mp hState
      cases List.mem_singleton.mp hRule
      cases hArgs
    · cases List.mem_singleton.mp hState
      cases hRule
      exact Nat.le_refl 2
  · cases hQuest

theorem argumentsFound_of_supported_twice :
    Always (step (only twiceQuest) silent (questContext (only twiceQuest) silent 3)) ArgumentsFound
      start [.create 0 1 "begin" true, .usedItem ⟨1, 0⟩ 5, .usedItem ⟨1, 0⟩ 5] :=
  argumentsFound_of_supported _ silent 3 _ twiceQuest_supported

/-- The rule `useditem(5)` is accepted, and its second argument is read when the
item is used. -/
theorem not_argumentsFound_once :
    ¬Always (step (only onceQuest) silent (questContext (only onceQuest) silent 3)) ArgumentsFound
      start [.create 0 1 "begin" true, .usedItem ⟨1, 0⟩ 5] := by
  intro hAlways
  have hReads : (run (step (only onceQuest) silent (questContext (only onceQuest) silent 3)) start
      [.create 0 1 "begin" true, .usedItem ⟨1, 0⟩ 5]).map (·.rest.wrongReads) = some 1 := by decide
  obtain ⟨s, hRun, hWrong⟩ := Option.map_eq_some_iff.mp hReads
  have hFound := (hAlways _ s (List.prefix_refl _) hRun).1
  rw [hWrong] at hFound
  cases hFound

end Etheos.Quests
