import Etheos.Character.Character

/-! Rules for the functions of a character: what an assertion about the world
must stand for the function to keep it. -/
namespace Etheos.Characters

open CharacterItem General

variable {cfg : Config} {P : World → Prop} {E : Fault → World → Prop}

theorem triple_getCharacter {c : CharId} {α : Type} {f : Character → Prog α} {Q : α → World → Prop}
    (h : ∀ w, P w → Triple (· = w) (f (w.characters c)) Q E) :
    Triple P (getCharacter c >>= f) Q E :=
  fun w hw => h w hw w rfl

/-- The character is read, and anything may have been there. -/
theorem triple_anyCharacter {c : CharId} {α : Type} {f : Character → Prog α}
    {Q : α → World → Prop} (h : ∀ self, Triple P (f self) Q E) :
    Triple P (getCharacter c >>= f) Q E :=
  fun w hw => h (w.characters c) w hw

theorem triple_modifyCharacter {c : CharId} {f : Character → Character} {Q : Unit → World → Prop}
    (h : ∀ w, P w → Q () (w.modifyCharacter c f)) : Triple P (modifyCharacter c f) Q E :=
  Triple.modify h

theorem triple_discard {α : Type} {x : Prog α} {Q : Unit → World → Prop}
    (h : Triple P x (fun _ => Q ()) E) : Triple P (discard x) Q E :=
  h.bind fun _ => .ret fun _ hw => hw

theorem triple_addItem {check : Check} {quests : Quests} {c : CharId} {item amount : Int}
    (hAdd : ∀ w inventory, P w → 0 < amount → 0 < item ∧ item < cfg.eifSize →
      add cfg.maxItem item amount (w.characters c).inventory = some inventory →
      P (w.modifyCharacter c ({ · with inventory := inventory })))
    (hCheck : Triple P (check quests c) (fun _ => P) E) :
    Triple P (addItem cfg check quests c item amount) (fun _ => P) E := by
  unfold addItem
  apply Triple.branch
  · intro _
    exact .ret fun _ hw => hw
  intro hAmount
  apply Triple.branch
  · intro _
    exact .ret fun _ hw => hw
  intro hItem
  apply triple_getCharacter
  intro w hw
  cases hResult : add cfg.maxItem item amount (w.characters c).inventory with
  | none => exact .ret fun _ h => h ▸ hw
  | some inventory =>
      have hDone : P (w.modifyCharacter c ({ · with inventory := inventory })) :=
        hAdd w inventory hw (by omega) (by omega) hResult
      exact (triple_modifyCharacter fun _ h => h ▸ hDone).seq
        (hCheck.seq (.ret fun _ hw => hw))

theorem triple_delItem {check : Check} {quests : Quests} {c : CharId} {item amount : Int}
    (hDel : ∀ w inventory, P w → 0 < amount →
      del item amount (w.characters c).inventory = some inventory →
      P (w.modifyCharacter c ({ · with inventory := inventory })))
    (hCheck : Triple P (check quests c) (fun _ => P) E) :
    Triple P (delItem check quests c item amount) (fun _ => P) E := by
  unfold delItem
  apply Triple.branch
  · intro _
    exact .ret fun _ hw => hw
  intro hAmount
  apply triple_getCharacter
  intro w hw
  cases hResult : del item amount (w.characters c).inventory with
  | none => exact .ret fun _ h => h ▸ hw
  | some inventory =>
      have hDone : P (w.modifyCharacter c ({ · with inventory := inventory })) :=
        hDel w inventory hw (by omega) hResult
      exact (triple_modifyCharacter fun _ h => h ▸ hDone).seq
        (hCheck.seq (.ret fun _ hw => hw))

/-- All quest actions are of the allowed kind. -/
def Quests.All (allowed : QuestAction → Prop) (quests : Quests) : Prop :=
  ∀ path, ∀ action ∈ quests path, allowed action

theorem Quests.All.sub {allowed : QuestAction → Prop} {quests : Quests}
    (h : quests.All allowed) (i : Nat) : (quests.sub i).All allowed :=
  fun path => h (i :: path)

/-- The checks below some depth run into no exception. A warp leads to the
check of `Map::Enter` only. -/
def Quests.Quiet : Nat → Quests → Prop
  | 0, quests => quests.actions = []
  | depth + 1, quests => go (Quiet depth) quests quests.actions
where
  go (quiet : Quests → Prop) (quests : Quests) : List QuestAction → Prop
    | [] => True
    | .fail :: _ => False
    | .warp _ :: actions => quiet ((quests.sub 0).sub 1) ∧ go quiet (quests.sub 1) actions
    | _ :: actions => quiet (quests.sub 0) ∧ go quiet (quests.sub 1) actions

/-- The checks of the actions one after the other, with a decision for each check. -/
def Quests.Quiet.decideGo {quiet : Quests → Prop} (h : ∀ quests, Decidable (quiet quests)) :
    ∀ (quests : Quests) (actions : List QuestAction), Decidable (Quests.Quiet.go quiet quests actions)
  | _, [] => isTrue trivial
  | _, .fail :: _ => isFalse fun hFail => hFail
  | quests, .warp _ :: actions =>
      have := decideGo h (quests.sub 1) actions
      have := h ((quests.sub 0).sub 1)
      inferInstanceAs (Decidable (_ ∧ _))
  | quests, .giveItem _ _ :: actions | quests, .removeItem _ _ :: actions
  | quests, .calculateStats :: actions =>
      have := decideGo h (quests.sub 1) actions
      have := h (quests.sub 0)
      inferInstanceAs (Decidable (_ ∧ _))

instance Quests.decidableQuiet : ∀ (depth : Nat) (quests : Quests), Decidable (quests.Quiet depth)
  | 0, quests => inferInstanceAs (Decidable (quests.actions = []))
  | depth + 1, quests => Quests.Quiet.decideGo (Quests.decidableQuiet depth) quests quests.actions

/-- An assertion that the allowed actions on a character keep, given the checks
that they cause in turn. -/
structure ActionInvariant (cfg : Config) (check : Check) (c : CharId)
    (allowed : QuestAction → Prop) (P : World → Prop) (E : Fault → World → Prop) : Prop where
  throws : ∀ w, P w → E .runtimeError w
  gives : ∀ w item amount inventory, P w → allowed (.giveItem item amount) → 0 < toInt amount →
    0 < toShort item ∧ toShort item < cfg.eifSize →
    add cfg.maxItem (toShort item) (toInt amount) (w.characters c).inventory = some inventory →
    P (w.modifyCharacter c ({ · with inventory := inventory }))
  removes : ∀ w item amount inventory, P w → allowed (.removeItem item amount) →
    0 < toInt amount →
    del (toShort item) (toInt amount) (w.characters c).inventory = some inventory →
    P (w.modifyCharacter c ({ · with inventory := inventory }))
  checks : ∀ quests : Quests, quests.All allowed → Triple P (check quests c) (fun _ => P) E
  warps : ∀ quests map, allowed (.warp map) → quests.All allowed →
    Triple P (warp cfg check quests c map) (fun _ => P) E

namespace ActionInvariant

variable {check : Check} {c : CharId} {allowed : QuestAction → Prop}

theorem runAction (h : ActionInvariant cfg check c allowed P E) {quests : Quests}
    (hQuests : quests.All allowed) {action : QuestAction} (hAllowed : allowed action) :
    Triple P (runAction cfg check quests c action) (fun _ => P) E := by
  cases action with
  | warp map => exact h.warps quests map hAllowed hQuests
  | giveItem item amount =>
      apply triple_discard
      apply triple_addItem _ (h.checks quests hQuests)
      intro w inventory hw hAmount hItem hAdd
      exact h.gives w item amount inventory hw hAllowed hAmount hItem hAdd
  | removeItem item amount =>
      apply triple_discard
      apply triple_delItem _ (h.checks quests hQuests)
      intro w inventory hw hAmount hDel
      exact h.removes w item amount inventory hw hAllowed hAmount hDel
  | calculateStats => exact h.checks quests hQuests
  | fail => exact .raise h.throws

theorem runActions (h : ActionInvariant cfg check c allowed P E) {quests : Quests}
    (hQuests : quests.All allowed) {actions : List QuestAction}
    (hActions : ∀ action ∈ actions, allowed action) :
    Triple P (runActions cfg check quests c actions) (fun _ => P) E := by
  induction actions generalizing quests with
  | nil => exact .ret fun _ hw => hw
  | cons action actions ih =>
      obtain ⟨hFirst, hRest⟩ := List.forall_mem_cons.mp hActions
      exact (h.runAction (hQuests.sub 0) hFirst).seq (ih (hQuests.sub 1) hRest)

end ActionInvariant

theorem triple_depth_zero {quests : Quests} {c : CharId} (hThrow : ∀ w, P w → E .runtimeError w) :
    Triple P (checkQuestRules cfg 0 quests c) (fun _ => P) E := by
  apply Triple.branch
  · intro _
    exact .ret fun _ hw => hw
  · intro _
    exact .raise hThrow

/-- What the allowed actions on one character keep, its checks keep, however
deep they go. -/
theorem triple_checkQuestRules {c : CharId} (allowed : QuestAction → Prop)
    (hThrow : ∀ w, P w → E .runtimeError w)
    (h : ∀ depth, (∀ quests : Quests, quests.All allowed →
        Triple P (checkQuestRules cfg depth quests c) (fun _ => P) E) →
      ActionInvariant cfg (checkQuestRules cfg depth) c allowed P E)
    (depth : Nat) (quests : Quests) (hQuests : quests.All allowed) :
    Triple P (checkQuestRules cfg depth quests c) (fun _ => P) E := by
  induction depth generalizing quests with
  | zero => exact triple_depth_zero hThrow
  | succ depth ih => exact (h depth ih).runActions hQuests (hQuests [])

/-- The same for an assertion that the checks of all characters keep. -/
theorem keeps_checkQuestRules
    (h : ∀ depth, (∀ quests c, Keeps P (checkQuestRules cfg depth quests c)) →
      ∀ c, ActionInvariant cfg (checkQuestRules cfg depth) c (fun _ => True) P (fun _ => P))
    (depth : Nat) (quests : Quests) (c : CharId) : Keeps P (checkQuestRules cfg depth quests c) := by
  induction depth generalizing quests c with
  | zero => exact triple_depth_zero fun _ hw => hw
  | succ depth ih => exact (h depth ih c).runActions (fun _ _ _ => trivial) fun _ _ => trivial

/-- An assertion that looks at nothing of the characters but what they carry, and that
additions and removals keep. -/
structure Aside (cfg : Config) (P : World → Prop) : Prop where
  change : ∀ c (f : Character → Character), (∀ self, (f self).inventory = self.inventory) →
    Keeps P (modifyCharacter c f)
  note : ∀ n, (∀ c p, n ≠ .swapped c p) → Keeps P (note n)
  add : ∀ w c (item amount : Int) inventory, P w → IsInt amount → 0 < amount → 0 < item ∧ item < cfg.eifSize →
    add cfg.maxItem item amount (w.characters c).inventory = some inventory →
    P (w.modifyCharacter c ({ · with inventory := inventory }))
  del : ∀ w c (item amount : Int) inventory, P w → IsInt amount → 0 < amount →
    del item amount (w.characters c).inventory = some inventory →
    P (w.modifyCharacter c ({ · with inventory := inventory }))

namespace Aside

variable {check : Check} {c : CharId}

theorem tradePartner : Keeps P (tradePartner c) := by
  apply Keeps.read
  intro w
  split
  · exact .raise
  · exact .branch .ret .raise

theorem getCharacter {α : Type} {f : Character → Prog α} (h : ∀ self, Keeps P (f self)) :
    Keeps P (getCharacter c >>= f) :=
  triple_anyCharacter h

variable (h : Aside cfg P) (hCheck : ∀ quests x, Keeps P (check quests x))

include h hCheck

theorem addItem (quests : Quests) (item : Int) {amount : Int} (hInt : IsInt amount) :
    Keeps P (addItem cfg check quests c item amount) :=
  triple_addItem (fun w inventory hw hPos hId => h.add w c item amount inventory hw hInt hPos hId) (hCheck _ _)

theorem delItem (quests : Quests) (item : Int) {amount : Int} (hInt : IsInt amount) :
    Keeps P (delItem check quests c item amount) :=
  triple_delItem (fun w inventory hw hPos => h.del w c item amount inventory hw hInt hPos) (hCheck _ _)

theorem closeTrade (quests : Quests) : Keeps P (closeTrade check quests c) := by
  apply tradePartner.bind
  intro p
  apply (h.change _ _ (by intro _; rfl)).bind
  intro _
  apply (h.change _ _ (by intro _; rfl)).bind
  intro _
  apply (h.change _ _ (by intro _; rfl)).bind
  intro _
  apply (h.note _ (by simp)).bind
  intro _
  apply (hCheck _ _).bind
  intro _
  apply tradePartner.bind
  intro _
  apply (hCheck _ _).bind
  intro _
  apply tradePartner.bind
  intro _
  exact (h.change _ _ (by intro _; rfl)).bind fun _ => h.change _ _ (by intro _; rfl)

theorem leaveTrade (quests : Quests) : Keeps P (leaveTrade check quests c) :=
  getCharacter fun _ => .branch (h.closeTrade hCheck quests) .ret

theorem warp (quests : Quests) (map : Int) : Keeps P (warp cfg check quests c map) := by
  apply Keeps.branch _ .ret
  apply (h.change _ _ (by intro _; rfl)).bind
  intro _
  apply (h.leaveTrade hCheck _).bind
  intro _
  exact (h.change _ _ (by intro _; rfl)).bind fun _ => hCheck _ _

omit hCheck

theorem questCheck (quests : Quests) (x : CharId) : Keeps P (Characters.check cfg quests x) := by
  apply keeps_checkQuestRules
  intro depth hCheck x
  exact {
    throws := fun _ hw => hw
    gives := fun w item amount inventory hw _ hPos hId => h.add w x _ _ inventory hw (isInt_toInt _) hPos hId
    removes := fun w item amount inventory hw _ hPos => h.del w x _ _ inventory hw (isInt_toInt _) hPos
    checks := fun quests _ => hCheck quests x
    warps := fun quests map _ _ => h.warp hCheck quests map }

/-- What is taken off comes back. -/
theorem unequip (quests : Quests) (item : Int) (subloc : Nat) : Keeps P (unequip cfg quests c item subloc) := by
  apply Keeps.branch .ret
  apply getCharacter
  intro self
  dsimp only
  split
  case h_1 => exact .ret
  case h_2 slot _ =>
    apply (h.change _ _ (by intro _; rfl)).bind
    intro _
    apply ((h.addItem h.questCheck _ item (by decide)).bind fun _ => .ret).bind
    intro _
    exact (h.questCheck _ _).bind fun _ => .ret

end Aside

end Etheos.Characters
