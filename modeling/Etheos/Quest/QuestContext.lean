import Etheos.Character.World
import Etheos.Quest.Discipline
import Etheos.Quest.Validation

/-! The actions and the rules of quests, and the events that reach them. What
happens to the character in between is left to an environment. -/
namespace Etheos.Quests

open EOPlus Characters

inductive DialogPart
  | page (text : String)
  | link (id : Int) (text : String)
  deriving Repr, DecidableEq

/-- What `Quest_Context` adds to a context. Each part of a dialog comes with the
number of its vendor. -/
structure Record where
  character : Nat
  stateDesc : String
  progress : List (String × Int)
  dialogs : List (Int × DialogPart)
  deriving Repr, DecidableEq

/-- `quests` are the quests of the characters, and `contexts` is the number of
contexts made so far. The program does not count the arguments read that are
missing or the unknown names. -/
structure Memory where
  records : ContextId → Record
  quests : Nat → Int → Option ContextId
  contexts : Nat
  clock : Nat
  wrongReads : Nat
  unknownNames : Nat

/-- What a quest asks of its character and of the world. -/
inductive Request
  | day | mapId | x | y | gender | clas | race
  | hasItem (id : Int) | hasSpell (id : Int) | spellLevel (id : Int) | wears (id : Int)
  | livesIn (home : String)
  | formula (tokens : List String) | formulaText (text : String)
  | statusMsg (text : String)
  | quake (strength : Int) | quakeWorld (strength : Int)
  | warp (map x y : Int)
  | playSound (id : Int)
  | giveExp (amount : Int)
  | addItem (id amount : Int) | delItem (id amount : Int)
  | setClass (id : Int) | setRace (id : Int)
  | removeKarma (amount : Int) | giveKarma (amount : Int)
  | setTitle (title : String) | setFiance (name : String) | setPartner (name : String)
  | setHome (home : String)
  | setStat (stat : String) (value : Int) | giveStat (stat : String) (value : Int)
  | removeStat (stat : String) (value : Int)
  | rand (low high : Int)
  deriving Repr, DecidableEq

/-- The answer to a request, the contexts whose rules are checked on the way, and
the exception that may come instead of the answer. -/
structure Reaction where
  answer : Int
  checks : List ContextId
  thrown : Option String
  deriving Repr, DecidableEq

/-- One reaction for each number of requests made before. -/
abbrev Environment := Nat → ContextId → Request → Reaction

/-- `world->quests`. -/
abbrev Files := Int → Option AcceptedQuest

def Files.quest (files : Files) (this : ContextId) : Quest :=
  (files this.quest).elim ⟨true, []⟩ (·.1)

/-- A change of what the subclass remembers. -/
def update (f : Memory → Memory) : Prog Memory Unit := modify fun s => { s with rest := f s.rest }

def readMemory {α : Type} (f : Memory → α) : Prog Memory α := do
  let s ← get
  return f s.rest

/-- `args[i]`. -/
def arg (args : List Variant) (i : Nat) : Prog Memory Variant :=
  match args[i]? with
  | some value => return value
  | none => do
      update fun memory => { memory with wrongReads := memory.wrongReads + 1 }
      throw .outOfRange

def unknownName : Prog Memory Unit :=
  update fun memory => { memory with unknownNames := memory.unknownNames + 1 }

section Records

variable (this : ContextId)

def modifyRecord (f : Record → Record) : Prog Memory Unit :=
  update fun memory =>
    { memory with records := Function.update memory.records this (f (memory.records this)) }

def findProgress (key : String) : Prog Memory (Option Int) :=
  readMemory fun memory => (memory.records this).progress.lookup key

/-- The values are of type `short`. -/
def setProgress (key : String) (value : Int) : Prog Memory Unit :=
  modifyRecord this fun record =>
    { record with progress := (key, toShort value) :: record.progress.filter (·.1 ≠ key) }

def eraseProgress (key : String) : Prog Memory Unit :=
  modifyRecord this fun record => { record with progress := record.progress.filter (·.1 ≠ key) }

/-- `progress[key]`, which adds a missing entry. -/
def progressAt (key : String) : Prog Memory Int := do
  let value := (← findProgress this key).getD 0
  setProgress this key value
  return value

/-- `++progress[key]`. -/
def countProgress (key : String) : Prog Memory Int := do
  let value := toShort ((← findProgress this key).getD 0 + 1)
  setProgress this key value
  return value

/-- `character->GetQuest(id)`. -/
def getQuest (id : Int) : Prog Memory (Option ContextId) :=
  readMemory fun memory => memory.quests (memory.records this).character id

/-- `character->quests[id] = context`. -/
def putQuest (character : Nat) (id : Int) (context : Option ContextId) : Prog Memory Unit :=
  update fun memory =>
    { memory with
      quests := Function.update memory.quests character
        (Function.update (memory.quests character) id context) }

/-- `character->ResetQuest(id)`. -/
def resetQuest (id : Int) : Prog Memory Unit := do
  putQuest (← readMemory fun memory => (memory.records this).character) id none

/-- The constructor of `Quest_Context`. -/
def newContext (character : Nat) (id : Int) : Prog Memory ContextId := do
  let context : ContextId := ⟨id, ← readMemory Memory.contexts⟩
  update fun memory => { memory with contexts := memory.contexts + 1 }
  setContext context ⟨none, "", false⟩
  modifyRecord context fun _ => ⟨character, "", [], []⟩
  return context

/-- The part of a dialog in an action. -/
def addDialog (action : Action) : Prog Memory Unit := do
  let function := action.expr.function
  let args := action.expr.args
  if function = "addnpctext" then
    let vendor ← arg args 0
    let text ← arg args 1
    modifyRecord this fun record =>
      { record with dialogs := record.dialogs ++ [(toShort vendor.int, .page text.string)] }
  else if function = "addnpcinput" then
    let vendor ← arg args 0
    let link ← arg args 1
    let text ← arg args 2
    modifyRecord this fun record =>
      { record with dialogs := record.dialogs ++ [(toShort vendor.int, .link link.int text.string)] }
  else return ()

def addDialogs : List Action → Prog Memory Unit
  | [] => return ()
  | action :: actions => do
      addDialog this action
      addDialogs actions

end Records

section Functions

variable (files : Files) (env : Environment) (v : Virtual Memory) (this : ContextId)

def beginState (_name : String) (state : State) : Prog Memory Unit := do
  modifyRecord this fun record =>
    { record with
      stateDesc := state.desc
      progress := record.progress.filter fun entry => entry.1 = "d" ∨ entry.1 = "c"
      dialogs := [] }
  if (files.quest this).disabled then return () else addDialogs this state.actions

def checkAll : List ContextId → Prog Memory Unit
  | [] => return ()
  | context :: contexts => do
      discard (checkRules v context)
      checkAll contexts

def ask (request : Request) : Prog Memory Int := do
  let now ← readMemory Memory.clock
  update fun memory => { memory with clock := memory.clock + 1 }
  let reaction := env now this request
  checkAll v reaction.checks
  match reaction.thrown with
  | none => return reaction.answer
  | some what => throw (.runtimeError what)

/-- An action that has done what it does when its request is made. -/
def perform (request : Request) : Prog Memory Bool := do
  discard (ask env v this request)
  return false

/-- `args.size() > i ? args[i] : value`, as a number. -/
def optionalArg (args : List Variant) (i : Nat) (value : Int) : Prog Memory Int := do
  if i < args.length then return (← arg args i).int else return value

/-- The state that a quest is started in. -/
def startState (args : List Variant) : Prog Memory String := do
  if 1 < args.length then return (← arg args 1).string else return "begin"

def startQuest (args : List Variant) : Prog Memory Bool := do
  let id := toShort (← arg args 0).int
  match ← getQuest this id with
  | none =>
      if (files id).isSome then
        let character ← readMemory fun memory => (memory.records this).character
        let context ← newContext character id
        putQuest character id (some context)
        setState v context (← startState args) true
      else pure ()
  | some context =>
      if (← getContext context).stateName = "done" then setState v context (← startState args) true
      else pure ()
  return false

/-- The action `resetquest`. -/
def resetQuestAction (args : List Variant) : Prog Memory Bool := do
  let id := toShort (← arg args 0).int
  match ← getQuest this id with
  | none => pure ()
  | some context =>
      if (← findProgress this "c").isNone then setState v context "done" true
      else resetQuest this id
  return id = this.quest

def setQuestState (args : List Variant) : Prog Memory Bool := do
  let id := toShort (← arg args 0).int
  let state := (← arg args 1).string
  match ← getQuest this id with
  | none => return false
  | some context =>
      setState v context state true
      return id = this.quest

/-- The strength is held between 1 and 8. -/
def quakeAction (request : Int → Request) (args : List Variant) : Prog Memory Bool := do
  if 0 < args.length then
    let strength ← arg args 0
    perform env v this (request (max 1 (min 8 strength.int)))
  else perform env v this (request 5)

def warpAction (args : List Variant) : Prog Memory Bool := do
  let map ← arg args 0
  let x ← arg args 1
  let y ← arg args 2
  perform env v this (.warp map.int x.int y.int)

/-- An action on a number. -/
def numberAction (request : Int → Request) (args : List Variant) : Prog Memory Bool := do
  let value ← arg args 0
  perform env v this (request value.int)

/-- An action on a text. -/
def textAction (request : String → Request) (args : List Variant) : Prog Memory Bool := do
  let text ← arg args 0
  perform env v this (request text.string)

def itemAction (request : Int → Int → Request) (args : List Variant) : Prog Memory Bool := do
  let id ← arg args 0
  let amount ← optionalArg args 1 1
  perform env v this (request (toShort id.int) amount)

/-- `modify_stat` answers with zero for an unknown stat. -/
def statAction (request : String → Int → Request) (args : List Variant) : Prog Memory Bool := do
  let stat ← arg args 0
  let value ← arg args 1
  if (← ask env v this (request stat.string value.int)) = 0 then
    throw (.runtimeError ("Unknown stat: " ++ stat.string))
  else return false

/-- `SetState`, by an action that reports it. -/
def changeState (name : String) : Prog Memory Bool := do
  setState v this name true
  return true

def runFunction (function : ActionName) (args : List Variant) : Prog Memory Bool :=
  match function with
  | .setstate => do
      let state ← arg args 0
      changeState v this (lowercase state.string)
  | .reset => do
      if (← findProgress this "c").isNone then
        resetQuest this this.quest
        return true
      else changeState v this "done"
  | .resetdaily => do
      setProgress this "d" (← ask env v this .day)
      discard (countProgress this "c")
      changeState v this "done"
  | .ending => changeState v this "end"
  | .startquest => startQuest files v this args
  | .resetquest => resetQuestAction v this args
  | .setqueststate => setQuestState v this args
  | .showhint => textAction env v this .statusMsg args
  | .quake => quakeAction env v this .quake args
  | .quakeworld => quakeAction env v this .quakeWorld args
  | .setmap | .setcoord => warpAction env v this args
  | .playsound => numberAction env v this .playSound args
  | .giveexp => numberAction env v this .giveExp args
  | .giveitem => itemAction env v this .addItem args
  | .removeitem => itemAction env v this .delItem args
  | .setclass => numberAction env v this .setClass args
  | .setrace => numberAction env v this .setRace args
  | .removekarma => numberAction env v this .removeKarma args
  | .givekarma => numberAction env v this .giveKarma args
  | .settitle => textAction env v this (fun text => .setTitle (text.take 32).toString) args
  | .setfiance => textAction env v this (fun text => .setFiance (text.take 16).toString) args
  | .setpartner => textAction env v this (fun text => .setPartner (text.take 16).toString) args
  | .sethome => textAction env v this (fun text => .setHome (text.take 32).toString) args
  | .setstat => statAction env v this .setStat args
  | .givestat => statAction env v this .giveStat args
  | .removestat => statAction env v this .removeStat args
  | .roll => do
      let sides ← arg args 0
      setProgress this "r" (← ask env v this (.rand 1 sides.int))
      return false
  | .addnpctext | .addnpcinput | .addnpcchat => return false

def doAction (action : Action) : Prog Memory Bool := do
  if (files.quest this).disabled then return false
  else match ActionName.ofString? action.expr.function with
    | some function => runFunction files env v this function action.expr.args
    | none => do
        unknownName
        return false

/-- `args[i]` is what the character answers. -/
def isArg (request : Request) (args : List Variant) (i : Nat) : Prog Memory Bool := do
  let value ← arg args i
  return (← ask env v this request) = value.int

/-- A request about the number `args[0]`, which is answered by yes or no. -/
def askAbout (request : Int → Request) (args : List Variant) : Prog Memory Bool := do
  let value ← arg args 0
  return (← ask env v this (request value.int)) ≠ 0

/-- A formula over `args[0]` and `args[1]`. -/
def askFormula (operator : String) (args : List Variant) : Prog Memory Bool := do
  let value ← arg args 1
  let stat ← arg args 0
  return (← ask env v this (.formula [value.string, stat.string, operator])) ≠ 0

/-- `HasItem(args[0]) >= args[1]`, where one is enough without the second argument. -/
def hasItems (args : List Variant) : Prog Memory Bool := do
  let id ← arg args 0
  let held ← ask env v this (.hasItem (toShort id.int))
  return (← optionalArg args 1 1) ≤ held

/-- A rule is evaluated from left to right, as far as its result is open. -/
def evaluate (function : RuleName) (args : List Variant) : Prog Memory Bool :=
  match function with
  | .always => return true
  | .donedaily => do
      let today ← ask env v this .day
      if (← progressAt this "d") = today then
        let times ← arg args 0
        return times.int ≤ (← progressAt this "c")
      else
        setProgress this "d" today
        setProgress this "c" 0
        return false
  | .entermap => isArg env v this .mapId args 0
  | .entercoord => do
      if ← isArg env v this .mapId args 0 then
        if ← isArg env v this .x args 1 then isArg env v this .y args 2 else return false
      else return false
  | .leavemap => return !(← isArg env v this .mapId args 0)
  | .leavecoord => do
      if ← isArg env v this .mapId args 0 then
        if ← isArg env v this .x args 1 then return !(← isArg env v this .y args 2)
        else return true
      else return true
  | .gotitems => hasItems env v this args
  | .lostitems => return !(← hasItems env v this args)
  | .gotspell => do
      if ← askAbout env v this (fun id => .hasSpell (toShort id)) args then
        if args.length < 2 then return true
        else
          let id ← arg args 0
          let level ← arg args 1
          return level.int ≤ (← ask env v this (.spellLevel (toShort id.int)))
      else return false
  | .lostspell => return !(← askAbout env v this (fun id => .hasSpell (toShort id)) args)
  | .isgender => isArg env v this .gender args 0
  | .isclass => isArg env v this .clas args 0
  | .israce => isArg env v this .race args 0
  | .iswearing => askAbout env v this .wears args
  | .citizenof => do
      let home ← arg args 0
      return (← ask env v this (.livesIn home.string)) ≠ 0
  | .rolled => do
      let roll ← progressAt this "r"
      let low ← arg args 0
      if args.length < 2 then return roll = low.int
      else if low.int ≤ roll then return roll ≤ (← arg args 1).int
      else return false
  | .statis | .statnot => askFormula env v this "=" args
  | .statgreater => askFormula env v this ">" args
  | .statless => askFormula env v this "<" args
  | .statbetween => do
      let low ← arg args 1
      let stat ← arg args 0
      let high ← arg args 2
      return (← ask env v this (.formula
        [low.string, stat.string, "gte", high.string, stat.string, "lte", "&"])) ≠ 0
  | .statrpn => do
      let text ← arg args 0
      return (← ask env v this (.formulaText text.string)) ≠ 0
  | .inputnpc | .talkedtonpc | .killednpcs | .killedplayers | .useditem | .usedspell =>
      return false

def checkRuleOf (expr : Expression) : Prog Memory Bool := do
  if (files.quest this).disabled then return false
  else match RuleName.ofString? expr.function with
    | some function => evaluate env v this function expr.args
    | none => do
        unknownName
        return false

end Functions

/-- The virtual functions, with their calls followed `fuel` deep. -/
def questContext (files : Files) (env : Environment) : Nat → Virtual Memory
  | 0 =>
    { quest := files.quest
      beginState := beginState files
      doAction := fun _ _ => throw .exhausted
      checkRule := fun _ _ => throw .exhausted }
  | fuel + 1 =>
    { quest := files.quest
      beginState := beginState files
      doAction := doAction files env (questContext files env fuel)
      checkRule := checkRuleOf files env (questContext files env fuel) }

section Events

variable (files : Files) (env : Environment) (v : Virtual Memory) (this : ContextId)

/-- `UsedItem`, `UsedSpell` and `KilledNPC`, each with the name of its rule. -/
def counted (rule : String) (id : Int) : Prog Memory Unit := do
  if (files.quest this).disabled then return ()
  else
    let key := rule ++ "/" ++ toString id
    let check ← queryRule this rule fun args => return (← arg args 0).int = id
    let amount ← if check then countProgress this key else pure 0
    let triggered ← triggerRule v this rule fun args => do
      if (← arg args 0).int = id then return (← arg args 1).int ≤ amount else return false
    if triggered then eraseProgress this key else return ()

def usedItem (id : Int) : Prog Memory Unit := counted files v this "useditem" id

def usedSpell (id : Int) : Prog Memory Unit := counted files v this "usedspell" id

def killedNPC (id : Int) : Prog Memory Unit := counted files v this "killednpcs" id

def killedPlayer : Prog Memory Unit := do
  if (files.quest this).disabled then return ()
  else
    let check ← queryRule this "killedplayers" fun _ => return true
    let amount ← if check then countProgress this "killedplayers" else pure 0
    let triggered ← triggerRule v this "killedplayers" fun args =>
      return (← arg args 0).int ≤ amount
    if triggered then eraseProgress this "killedplayers" else return ()

/-- `DialogInput` and `TalkedNPC`, each with the name of its rule. -/
def answered (rule : String) (id : Int) : Prog Memory Bool := do
  if (files.quest this).disabled then return false
  else triggerRule v this rule fun args => return (← arg args 0).int = id

def dialogInput (link : Int) : Prog Memory Bool := answered files v this "inputnpc" link

def talkedNPC (vendor : Int) : Prog Memory Bool := answered files v this "talkedtonpc" vendor

end Events

inductive BookIcon
  | talk | item | kill | step
  deriving Repr, DecidableEq

structure ProgressInfo where
  icon : BookIcon
  progress : Int
  goal : Int
  deriving Repr, DecidableEq

section Progress

variable (env : Environment) (v : Virtual Memory) (this : ContextId)

/-- A goal whose progress is counted. -/
def countedGoal (icon : BookIcon) (key : String) (goal : Int) : Prog Memory ProgressInfo :=
  return ⟨icon, (← findProgress this key).getD 0, toShort goal⟩

def goalProgress (goal : Expression) : Prog Memory ProgressInfo := do
  let function := goal.function
  let args := goal.args
  if function = "gotitems" ∨ function = "gotspell" then
    let most ← arg args 1
    let id ← arg args 0
    let held ← ask env v this (.hasItem (toShort id.int))
    return ⟨.item, toShort (min most.int held), toShort (← optionalArg args 1 1)⟩
  else if function = "useditem" ∨ function = "usedspell" then
    let id ← arg args 0
    countedGoal this .item (function ++ "/" ++ id.string) (← optionalArg args 1 1)
  else if function = "killednpcs" then
    let id ← arg args 0
    countedGoal this .kill (function ++ "/" ++ id.string) (← optionalArg args 1 1)
  else if function = "killedplayers" then
    let amount ← arg args 0
    countedGoal this .kill function amount.int
  else if function = "entercoord" ∨ function = "leavecoord" ∨ function = "entermap" ∨
      function = "leavemap" then return ⟨.step, 0, 0⟩
  else return ⟨.talk, 0, 0⟩

def progress : Prog Memory ProgressInfo := do
  match ← getGoal this with
  | none => return ⟨.talk, 0, 0⟩
  | some goal => goalProgress env v this goal.expr

end Progress

end Etheos.Quests
