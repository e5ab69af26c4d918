import Etheos.Map.Damage
import Mathlib.Algebra.Order.BigOperators.Group.List
import Mathlib.Algebra.Order.Group.Int

/-! The NPCs and their attackers know of each other, as long as nobody goes off duty in the middle
of a fight. -/
namespace Etheos.Ledgers

open Characters (IsInt toInt)
open General

namespace NPC

variable {npc : NPC} {c other : CharId} {amount : Int}

def damages : Int := (npc.damagelist.map (·.damage)).sum

structure Sound (npc : NPC) : Prop where
  total : npc.totaldamage = npc.damages
  once : npc.attackers.Nodup
  positive : ∀ opponent ∈ npc.damagelist, 0 ≤ opponent.damage
  small : npc.totaldamage < 2 ^ 31

end NPC

namespace Opponent

variable {opponent : Opponent} {c : CharId} {amount : Int} {opponents : List Opponent}

theorem hit_damage (hPositive : 0 ≤ opponent.damage) (hAmount : 0 ≤ amount)
    (hSmall : opponent.damage + amount < 2 ^ 31) : (opponent.hit amount).damage = opponent.damage + amount := by
  have hInt : toInt (opponent.damage + amount) = opponent.damage + amount :=
    Characters.IsInt.toInt_eq ⟨by omega, hSmall⟩
  unfold hit
  rw [hInt]
  split
  · rfl
  · omega

theorem hit_attacker : (opponent.hit amount).attacker = opponent.attacker := by
  unfold hit
  split <;> rfl

theorem hits_attackers : (hits c amount opponents).map (·.attacker) = opponents.map (·.attacker) := by
  unfold hits
  rw [List.map_map]
  refine List.map_congr_left fun opponent _ => ?_
  simp only [Function.comp_apply]
  split
  · exact hit_attacker
  · rfl

theorem hits_of_missing (h : c ∉ opponents.map (·.attacker)) : hits c amount opponents = opponents := by
  unfold hits
  refine (List.map_congr_left fun opponent hOpponent => if_neg ?_).trans (List.map_id _)
  rintro rfl
  exact h (List.mem_map_of_mem hOpponent)

/-- There is one entry to be found only. -/
theorem hits_once (h : (opponents.map (·.attacker)).Nodup) :
    hits c amount opponents = Entries.modifyFirst (·.attacker = c) (hit amount) opponents := by
  induction opponents with
  | nil => rfl
  | cons first rest ih =>
      obtain ⟨hFirst, hRest⟩ := List.nodup_cons.mp h
      show (if first.attacker = c then first.hit amount else first) :: hits c amount rest = _
      unfold Entries.modifyFirst
      split
      next hHere => rw [hits_of_missing (hHere ▸ hFirst)]
      next => rw [ih hRest]

end Opponent

namespace NPC

variable {npc : NPC} {c other : CharId} {amount : Int}

theorem found (h : c ∈ npc.attackers) : ∃ opponent, npc.damagelist.find? (·.attacker = c) = some opponent := by
  obtain ⟨opponent, hOpponent, hAttacker⟩ := List.mem_map.mp h
  exact Option.isSome_iff_exists.mp (List.find?_isSome.mpr ⟨opponent, hOpponent, by simpa using hAttacker⟩)

/-- What one attacker has done is not more than all damage. -/
theorem Sound.bound (h : npc.Sound) {opponent : Opponent} (hOpponent : opponent ∈ npc.damagelist) :
    opponent.damage ≤ npc.totaldamage := by
  rw [h.total]
  refine List.single_le_sum ?_ _ (List.mem_map_of_mem hOpponent)
  simpa using h.positive

theorem mem_attackers_credit : other ∈ (npc.credit c amount).attackers ↔ other ∈ npc.attackers ∨ other = c := by
  unfold credit attackers
  dsimp only
  split
  next hFound =>
    rw [Opponent.hits_attackers]
    constructor
    · exact .inl
    · rintro (hOther | rfl)
      · exact hOther
      · exact hFound
  next => simp

theorem Sound.credit (h : npc.Sound) (hAmount : 0 ≤ amount) (hSmall : npc.totaldamage + amount < 2 ^ 31) :
    (npc.credit c amount).Sound := by
  have hNonneg : 0 ≤ npc.totaldamage := by
    rw [h.total]
    exact List.sum_nonneg (by simpa using h.positive)
  have hTotal : (npc.credit c amount).totaldamage = npc.totaldamage + amount := by
    have hInt : toInt (npc.totaldamage + amount) = npc.totaldamage + amount :=
      IsInt.toInt_eq ⟨by omega, hSmall⟩
    simp only [NPC.credit, hInt]
    split <;> omega
  by_cases hFound : c ∈ npc.attackers
  · have hList : (npc.credit c amount).damagelist =
        Entries.modifyFirst (·.attacker = c) (Opponent.hit amount) npc.damagelist :=
      (if_pos hFound).trans (Opponent.hits_once h.once)
    obtain ⟨opponent, hOpponent⟩ := found hFound
    have hMem : opponent ∈ npc.damagelist := List.mem_of_find?_eq_some hOpponent
    have hHit : (opponent.hit amount).damage = opponent.damage + amount := by
      have hBound := h.bound hMem
      exact Opponent.hit_damage (h.positive opponent hMem) hAmount (by omega)
    constructor
    · unfold damages
      rw [hTotal, hList, Entries.sum_modifyFirst _ hOpponent, hHit, h.total]
      unfold damages
      omega
    · unfold attackers
      rw [hList, ← Opponent.hits_once h.once, Opponent.hits_attackers]
      exact h.once
    · rw [hList]
      refine Entries.forall_modifyFirst_of_found hOpponent h.positive ?_
      rw [hHit]
      exact Int.add_nonneg (h.positive opponent hMem) hAmount
    · rw [hTotal]
      exact hSmall
  · have hList : (npc.credit c amount).damagelist = npc.damagelist ++ [⟨c, amount⟩] := if_neg hFound
    constructor
    · unfold damages
      rw [hTotal, hList, Entries.sum_append_one, h.total]
      rfl
    · unfold attackers
      rw [hList, List.map_append]
      exact List.Nodup.append h.once (List.nodup_singleton c) (by simpa [attackers] using hFound)
    · rw [hList]
      simpa [or_imp, forall_and, hAmount] using h.positive
    · rw [hTotal]
      exact hSmall

theorem attackers_retract : (npc.retract c).attackers = npc.attackers.erase c := by
  unfold retract
  split
  next => exact Entries.map_eraseFirst _ _ _
  next hNone =>
    refine (List.erase_of_not_mem fun hMem => ?_).symm
    obtain ⟨opponent, hFound⟩ := found hMem
    simp [hNone] at hFound

theorem Sound.retract (h : npc.Sound) : (npc.retract c).Sound := by
  have hOnce : (npc.retract c).attackers.Nodup := by
    rw [attackers_retract]
    exact h.once.erase c
  cases hFound : npc.damagelist.find? (·.attacker = c) with
  | none =>
      have hSame : npc.retract c = npc := by
        unfold NPC.retract
        rw [hFound]
      rw [hSame]
      exact h
  | some opponent =>
      have hLeft : npc.retract c = { npc with
          totaldamage := toInt (npc.totaldamage - opponent.damage)
          damagelist := Entries.eraseFirst (·.attacker = c) npc.damagelist } := by
        unfold NPC.retract
        rw [hFound]
      have hMem : opponent ∈ npc.damagelist := List.mem_of_find?_eq_some hFound
      have hBound := h.bound hMem
      have hPositive := h.positive opponent hMem
      have hSmall := h.small
      have hInt : toInt (npc.totaldamage - opponent.damage) = npc.totaldamage - opponent.damage :=
        IsInt.toInt_eq ⟨by omega, by omega⟩
      refine ⟨?_, hOnce, ?_, ?_⟩
      · unfold damages
        rw [hLeft, hInt, Entries.sum_eraseFirst _ hFound, h.total]
        rfl
      · rw [hLeft]
        exact fun other hOther => h.positive other ((Entries.eraseFirst_sublist _ _).subset hOther)
      · rw [hLeft, hInt]
        dsimp only
        omega

end NPC

namespace State

variable (s : State)

/-- Those who have an entry in the list of the NPC. -/
def attackers (n : NpcId) : List CharId := (s.npcs n).elim [] NPC.attackers

/-- The NPCs that the character has to be taken from. -/
def registered (c : CharId) : List NpcId := (s.characters c).elim [] Character.unregisterNpc

def Online (c : CharId) : Prop := ∃ character, s.characters c = some character ∧ character.online

end State

/-- What is written on both sides agrees. -/
def Agrees (s : State) : Prop :=
  (∀ n npc, s.npcs n = some npc → npc.totaldamage = npc.damages ∧ npc.attackers.Nodup) ∧
    ∀ c character n, s.characters c = some character → (n ∈ character.unregisterNpc ↔ c ∈ s.attackers n)

structure Inv (s : State) : Prop where
  sound : ∀ {n npc}, s.npcs n = some npc → npc.Sound
  both : ∀ c n, n ∈ s.registered c ↔ c ∈ s.attackers n
  online : ∀ {c n}, c ∈ s.attackers n → s.Online c

section Unregister

variable {s : State} {n m : NpcId} {npc : NPC} {c : CharId}

@[simp] theorem attackers_some (h : s.npcs n = some npc) : s.attackers n = npc.attackers := by
  simp [State.attackers, h]

/-- The NPC is not in the list any more, if it was. -/
def Character.without (n : NpcId) (character : Character) : Character :=
  { character with unregisterNpc := character.unregisterNpc.filter (· ≠ n) }

theorem Character.without_without (character : Character) :
    (character.without n).without n = character.without n := by
  simp [without]

/-- The loop of the source, told of the list of attackers. -/
def leave (n : NpcId) (s : State) (attackers : List CharId) : State :=
  attackers.foldl (fun s c => s.modify c (Character.without n)) s

theorem unregister_eq : s.unregister n npc = leave n s npc.attackers := by
  simp only [State.unregister, leave, NPC.attackers, List.foldl_map]
  rfl

theorem leave_characters (attackers : List CharId) : (leave n s attackers).characters c =
    if c ∈ attackers then (s.characters c).map (Character.without n) else s.characters c := by
  induction attackers generalizing s with
  | nil => rfl
  | cons first rest ih =>
      show (leave n (s.modify first (Character.without n)) rest).characters c = _
      rw [ih]
      by_cases hFirst : c = first
      · subst hFirst
        cases hCharacter : s.characters c with
        | none => simp [State.modify, State.setCharacter, hCharacter]
        | some character => simp [State.modify, State.setCharacter, hCharacter, Character.without_without]
      · simp [State.modify, State.setCharacter, hFirst]

theorem leave_npcs (attackers : List CharId) : (leave n s attackers).npcs = s.npcs := by
  induction attackers generalizing s with
  | nil => rfl
  | cons first rest ih => exact ih (s := s.modify first (Character.without n))

theorem leave_online (attackers : List CharId) : (leave n s attackers).Online c ↔ s.Online c := by
  unfold State.Online
  rw [leave_characters]
  split
  · simp [Option.map_eq_some_iff, Character.without]
  · exact Iff.rfl

theorem leave_registered (attackers : List CharId) : m ∈ (leave n s attackers).registered c ↔
    m ∈ s.registered c ∧ (c ∈ attackers → m ≠ n) := by
  unfold State.registered
  rw [leave_characters]
  split
  next hAttacker =>
    cases s.characters c with
    | none => simp
    | some character => simp [Character.without, hAttacker]
  next hAttacker => simp [hAttacker]

end Unregister

section Wipe

variable {s next : State} {n : NpcId} {npc : NPC}

/-- Whatever empties the list of an NPC, and tells those who are in it. -/
theorem Inv.wipe (h : Inv s) (hNpc : s.npcs n = some npc) (hOthers : ∀ m, m ≠ n → next.npcs m = s.npcs m)
    (hSelf : ∀ left, next.npcs n = some left → left.Sound ∧ left.attackers = [])
    (hCharacters : next.characters = (leave n s npc.attackers).characters) : Inv next := by
  have hRegistered : ∀ c m, m ∈ next.registered c ↔ m ∈ s.registered c ∧ (c ∈ npc.attackers → m ≠ n) := by
    intro c m
    rw [← leave_registered]
    simp only [State.registered, hCharacters]
  have hOnline : ∀ c, next.Online c ↔ s.Online c := by
    intro c
    rw [← leave_online (s := s) (n := n) npc.attackers]
    simp only [State.Online, hCharacters]
  have hEmpty : next.attackers n = [] := by
    unfold State.attackers
    cases hLeft : next.npcs n with
    | none => rfl
    | some left => exact (hSelf left hLeft).2
  have hKept : ∀ m, m ≠ n → next.attackers m = s.attackers m := by
    intro m hm
    simp only [State.attackers, hOthers m hm]
  constructor
  · intro m left hLeft
    obtain rfl | hm := eq_or_ne m n
    · exact (hSelf left hLeft).1
    · exact h.sound ((hOthers m hm).symm.trans hLeft)
  · intro c m
    rw [hRegistered]
    obtain rfl | hm := eq_or_ne m n
    · rw [hEmpty, h.both, attackers_some hNpc]
      simp
    · rw [hKept m hm, h.both]
      simp [hm]
  · intro c m hAttacker
    rw [hOnline]
    obtain rfl | hm := eq_or_ne m n
    · simp [hEmpty] at hAttacker
    · rw [hKept m hm] at hAttacker
      exact h.online hAttacker

theorem Inv.fall (h : Inv s) (hNpc : s.npcs n = some npc) : Inv (s.fall n npc) := by
  refine h.wipe hNpc (fun m hm => ?_) (fun left hLeft => ?_) ?_
  · simp [State.fall, State.put, unregister_eq, leave_npcs, hm]
  · simp only [State.fall, State.put, Function.update_self, Option.some.injEq] at hLeft
    subst hLeft
    exact ⟨⟨rfl, List.nodup_nil, by simp [NPC.clear], by simp [NPC.clear]⟩, rfl⟩
  · simp [State.fall, State.put, unregister_eq]

theorem Inv.delete (h : Inv s) (hNpc : s.npcs n = some npc) : Inv (s.delete n npc) := by
  refine h.wipe hNpc (fun m hm => ?_) (fun left hLeft => ?_) ?_
  · simp [State.delete, unregister_eq, leave_npcs, hm]
  · simp [State.delete] at hLeft
  · simp [State.delete, unregister_eq]

/-- Nothing but the maps, the settings and the objects that are gone has changed. -/
theorem Inv.gone (h : Inv s) (hEmpty : s.attackers n = []) (hOthers : ∀ m, m ≠ n → next.npcs m = s.npcs m)
    (hGone : next.npcs n = none) (hCharacters : next.characters = s.characters) : Inv next := by
  have hAttackers : ∀ m, next.attackers m = s.attackers m := by
    intro m
    obtain rfl | hm := eq_or_ne m n
    · rw [hEmpty]
      simp only [State.attackers, hGone, Option.elim_none]
    · simp only [State.attackers, hOthers m hm]
  have hRegistered : ∀ c, next.registered c = s.registered c := by
    intro c
    simp only [State.registered, hCharacters]
  constructor
  · intro m left hLeft
    obtain rfl | hm := eq_or_ne m n
    · simp [hGone] at hLeft
    · exact h.sound ((hOthers m hm).symm.trans hLeft)
  · intro c m
    rw [hRegistered, hAttackers]
    exact h.both c m
  · intro c m hAttacker
    rw [hAttackers] at hAttacker
    simpa only [State.Online, hCharacters] using h.online hAttacker

theorem Inv.deleteTemporary (h : Inv s) (hEmpty : s.attackers n = []) (hList : npc.damagelist = []) :
    Inv (s.deleteTemporary n npc) := by
  unfold State.deleteTemporary
  split
  · refine h.gone hEmpty (fun m hm => ?_) ?_ ?_
    · simp [State.delete, State.unregister, hList, hm]
    · simp [State.delete]
    · simp [State.delete, State.unregister, hList]
  · exact h

end Wipe

/-- An NPC that is alive afterwards is the same as before. -/
def Calms (s next : State) : Prop :=
  ∀ n npc, next.npcs n = some npc → npc.alive → s.npcs n = some npc

/-- An NPC without attackers has none afterwards. -/
def Spares (s next : State) : Prop :=
  ∀ n, s.attackers n = [] → next.attackers n = []

section Deaths

variable {s between next : State} {n m : NpcId} {npc : NPC}

theorem Calms.trans (h : Calms s between) (hMore : Calms between next) : Calms s next :=
  fun n npc hNpc hAlive => h n npc (hMore n npc hNpc hAlive) hAlive

theorem fall_npcs : (s.fall n npc).npcs = Function.update s.npcs n (some { npc.clear with alive := false }) := by
  simp [State.fall, State.put, unregister_eq, leave_npcs]

theorem fall_empty : (s.fall n npc).attackers n = [] := by
  simp [State.attackers, fall_npcs, NPC.clear, NPC.attackers]

theorem fall_calms : Calms s (s.fall n npc) := by
  intro m left hLeft hAlive
  rw [fall_npcs] at hLeft
  obtain rfl | hm := eq_or_ne m n
  · simp only [Function.update_self, Option.some.injEq] at hLeft
    simp [← hLeft] at hAlive
  · rwa [Function.update_of_ne hm] at hLeft

theorem fall_spares : Spares s (s.fall n npc) := by
  intro m hEmpty
  obtain rfl | hm := eq_or_ne m n
  · exact fall_empty
  · simpa only [State.attackers, fall_npcs, Function.update_of_ne hm] using hEmpty

theorem deleteTemporary_npcs : (s.deleteTemporary n npc).npcs = s.npcs ∨
    (s.deleteTemporary n npc).npcs = Function.update s.npcs n none := by
  unfold State.deleteTemporary
  split
  · exact .inr (by simp [State.delete, unregister_eq, leave_npcs])
  · exact .inl rfl

theorem deleteTemporary_calms : Calms s (s.deleteTemporary n npc) := by
  intro m left hLeft _
  obtain hSame | hGone := @deleteTemporary_npcs s n npc
  · rwa [hSame] at hLeft
  · rw [hGone] at hLeft
    obtain rfl | hm := eq_or_ne m n
    · simp at hLeft
    · rwa [Function.update_of_ne hm] at hLeft

theorem deleteTemporary_spares : Spares s (s.deleteTemporary n npc) := by
  intro m hEmpty
  obtain hSame | hGone := @deleteTemporary_npcs s n npc
  · simpa only [State.attackers, hSame] using hEmpty
  · obtain rfl | hm := eq_or_ne m n
    · simp [State.attackers, hGone]
    · simpa only [State.attackers, hGone, Function.update_of_ne hm] using hEmpty

theorem die_spec (h : Inv s) : Inv (s.die n) ∧ Calms s (s.die n) ∧ Spares s (s.die n) := by
  unfold State.die
  split
  next => exact ⟨h, fun _ _ hNpc _ => hNpc, fun _ hEmpty => hEmpty⟩
  next npc hNpc =>
    split
    next =>
      refine ⟨(h.fall hNpc).deleteTemporary fall_empty rfl, fall_calms.trans deleteTemporary_calms, ?_⟩
      exact fun m hEmpty => deleteTemporary_spares m (fall_spares m hEmpty)
    next => exact ⟨h, fun _ _ hNpc _ => hNpc, fun _ hEmpty => hEmpty⟩

theorem dies_spec (h : Inv s) (dying : List NpcId) :
    Inv (dying.foldl State.die s) ∧ Calms s (dying.foldl State.die s) ∧ Spares s (dying.foldl State.die s) := by
  induction dying generalizing s with
  | nil => exact ⟨h, fun _ _ hNpc _ => hNpc, fun _ hEmpty => hEmpty⟩
  | cons first rest ih =>
      obtain ⟨hDie, hCalms, hSpares⟩ := die_spec (n := first) h
      obtain ⟨hRest, hRestCalms, hRestSpares⟩ := ih hDie
      exact ⟨hRest, hCalms.trans hRestCalms, fun m hEmpty => hRestSpares m (hSpares m hEmpty)⟩

/-- From what the NPC is in the state no more is needed than that its attackers know of it. -/
theorem killed_spec (h : Inv s) (hNpc : s.npcs n = some npc) :
    Inv (s.killed n npc) ∧ Calms (s.fall n npc) (s.killed n npc) := by
  have hFall : Inv (s.fall n npc) := h.fall hNpc
  unfold State.killed
  dsimp only
  split
  next =>
    obtain ⟨hDies, hCalms, hSpares⟩ := dies_spec hFall ((s.fall n npc).children npc.map)
    exact ⟨hDies.deleteTemporary (hSpares n fall_empty) rfl, hCalms.trans deleteTemporary_calms⟩
  next => exact ⟨hFall.deleteTemporary fall_empty rfl, deleteTemporary_calms⟩

end Deaths

def Healthy (s : State) : Prop := ∀ n npc, s.npcs n = some npc → npc.alive → 0 ≤ npc.hp

theorem Calms.healthy {s next : State} (h : Calms s next) (hHealthy : Healthy s) : Healthy next :=
  fun n npc hNpc hAlive => hHealthy n npc (h n npc hNpc hAlive) hAlive

section Damage

variable {s : State} {n : NpcId} {npc : NPC} {c : CharId} {character : Character} {amount : Int}

/-- The NPC and its new attacker, before it is seen whether the NPC is killed. -/
def hurt (s : State) (n : NpcId) (npc : NPC) (c : CharId) (amount hp : Int) : State :=
  let s := s.put n { npc.credit c amount with hp := hp }
  if c ∈ npc.attackers then s
  else s.modify c fun character => { character with unregisterNpc := character.unregisterNpc ++ [n] }

theorem hurt_npcs (hp : Int) :
    (hurt s n npc c amount hp).npcs = Function.update s.npcs n (some { npc.credit c amount with hp := hp }) := by
  unfold hurt
  dsimp only
  split <;> rfl

theorem hurt_registered (hCharacter : s.characters c = some character) (hp : Int) (other : CharId) (m : NpcId) :
    m ∈ (hurt s n npc c amount hp).registered other ↔
      m ∈ s.registered other ∨ (m = n ∧ other = c ∧ c ∉ npc.attackers) := by
  unfold hurt
  dsimp only
  split
  next hKnown => simp [hKnown, State.registered, State.put]
  next hNew =>
    obtain rfl | hOther := eq_or_ne other c
    · simp [hNew, State.registered, State.modify, State.setCharacter, State.put, hCharacter]
    · simp [hNew, State.registered, State.modify, State.setCharacter, State.put, hOther]

theorem hurt_online (hp : Int) (other : CharId) : (hurt s n npc c amount hp).Online other ↔ s.Online other := by
  unfold hurt
  dsimp only
  split
  next => exact Iff.rfl
  next =>
    obtain rfl | hOther := eq_or_ne other c
    · simp [State.Online, State.modify, State.setCharacter, State.put, Option.map_eq_some_iff]
    · simp [State.Online, State.modify, State.setCharacter, State.put, hOther]

theorem Inv.hurt (h : Inv s) (hNpc : s.npcs n = some npc) (hCharacter : s.characters c = some character)
    (hOnline : character.online) (hAmount : 0 ≤ amount) (hSmall : npc.totaldamage + amount < 2 ^ 31) (hp : Int) :
    Inv (hurt s n npc c amount hp) := by
  have hCredit : (npc.credit c amount).Sound := (h.sound hNpc).credit hAmount hSmall
  have hAttackers : ∀ other m, other ∈ (Ledgers.hurt s n npc c amount hp).attackers m ↔
      other ∈ s.attackers m ∨ (m = n ∧ other = c) := by
    intro other m
    obtain rfl | hm := eq_or_ne m n
    · have hHere : (Ledgers.hurt s m npc c amount hp).npcs m = some { npc.credit c amount with hp := hp } := by
        rw [hurt_npcs, Function.update_self]
      rw [attackers_some hHere, attackers_some hNpc]
      exact NPC.mem_attackers_credit.trans (by simp)
    · simp [State.attackers, hurt_npcs, hm]
  constructor
  · intro m left hLeft
    rw [hurt_npcs] at hLeft
    obtain rfl | hm := eq_or_ne m n
    · simp only [Function.update_self, Option.some.injEq] at hLeft
      subst hLeft
      exact ⟨hCredit.total, hCredit.once, hCredit.positive, hCredit.small⟩
    · exact h.sound (by rwa [Function.update_of_ne hm] at hLeft)
  · intro other m
    rw [hurt_registered hCharacter, hAttackers, h.both]
    constructor
    · rintro (hOld | ⟨hHere, hOther, -⟩)
      · exact .inl hOld
      · exact .inr ⟨hHere, hOther⟩
    · rintro (hOld | ⟨rfl, rfl⟩)
      · exact .inl hOld
      · by_cases hKnown : other ∈ npc.attackers
        · exact .inl (by rwa [attackers_some hNpc])
        · exact .inr ⟨rfl, rfl, hKnown⟩
  · intro other m hAttacker
    rw [hurt_online]
    obtain hOld | ⟨-, rfl⟩ := (hAttackers other m).mp hAttacker
    · exact h.online hOld
    · exact ⟨character, hCharacter, hOnline⟩

theorem damage_spec (h : Inv s) (hHealthy : Healthy s) (hNpc : s.npcs n = some npc) (hAlive : npc.alive)
    (hCharacter : s.characters c = some character) (hOnline : character.online) (hAmount : 0 ≤ amount)
    (hSmall : npc.totaldamage + min npc.hp amount < 2 ^ 31) :
    Inv (s.damage n npc c amount) ∧ Healthy (s.damage n npc c amount) := by
  have hLimit : 0 ≤ min npc.hp amount := le_min (hHealthy n npc hNpc hAlive) hAmount
  unfold State.damage
  dsimp only
  generalize (if (s.enf npc.id).attackable then npc.hp - (if s.limitDamage then min npc.hp amount else amount) else 0)
    = hp
  have hHurt : Inv (hurt s n npc c (min npc.hp amount) hp) := h.hurt hNpc hCharacter hOnline hLimit hSmall hp
  have hOthers : ∀ m left, m ≠ n → (hurt s n npc c (min npc.hp amount) hp).npcs m = some left →
      left.alive → 0 ≤ left.hp := by
    intro m left hm hLeft
    rw [hurt_npcs, Function.update_of_ne hm] at hLeft
    exact hHealthy m left hLeft
  have hHere : (hurt s n npc c (min npc.hp amount) hp).npcs n =
      some { npc.credit c (min npc.hp amount) with hp := hp } := by
    rw [hurt_npcs, Function.update_self]
  change Inv (if hp > 0 then hurt s n npc c (min npc.hp amount) hp
      else (hurt s n npc c (min npc.hp amount) hp).killed n _) ∧
    Healthy (if hp > 0 then hurt s n npc c (min npc.hp amount) hp
      else (hurt s n npc c (min npc.hp amount) hp).killed n _)
  split
  next hLeft =>
    refine ⟨hHurt, fun m left hMem hLeftAlive => ?_⟩
    obtain rfl | hm := eq_or_ne m n
    · rw [hHere, Option.some.injEq] at hMem
      subst hMem
      exact hLeft.le
    · exact hOthers m left hm hMem hLeftAlive
  next =>
    obtain ⟨hKilled, hCalms⟩ := killed_spec hHurt hHere
    refine ⟨hKilled, fun m left hMem hLeftAlive => ?_⟩
    have hFallen := hCalms m left hMem hLeftAlive
    obtain rfl | hm := eq_or_ne m n
    · rw [fall_npcs, Function.update_self, Option.some.injEq] at hFallen
      simp [← hFallen] at hLeftAlive
    · rw [fall_npcs, Function.update_of_ne hm] at hFallen
      exact hOthers m left hm hFallen hLeftAlive

end Damage

section Logout

variable {s : State} {n m : NpcId} {c other : CharId} {character : Character}

/-- The loop of `Logout`. -/
def retracts (c : CharId) (s : State) (npcs : List NpcId) : State :=
  npcs.foldl (fun s n => match s.npcs n with
    | some npc => s.put n (npc.retract c)
    | none => s) s

theorem retract_npcs (s : State) (n : NpcId) :
    (match s.npcs n with | some npc => s.put n (npc.retract c) | none => s).npcs =
      Function.update s.npcs n ((s.npcs n).map (·.retract c)) := by
  split
  next npc hNpc => rw [hNpc]; rfl
  next hNone =>
    rw [hNone, Option.map_none, ← hNone]
    exact (Function.update_eq_self n s.npcs).symm

theorem retracts_characters (npcs : List NpcId) : (retracts c s npcs).characters = s.characters := by
  induction npcs generalizing s with
  | nil => rfl
  | cons first rest ih =>
      unfold retracts
      rw [List.foldl_cons]
      refine ih.trans ?_
      split <;> rfl

/-- Only entries of the character go, and all that it has in the NPCs of the list. -/
theorem retracts_spec (hSound : ∀ m npc, s.npcs m = some npc → npc.Sound) (npcs : List NpcId) :
    (∀ m npc, (retracts c s npcs).npcs m = some npc → npc.Sound) ∧
      ∀ m other, other ∈ (retracts c s npcs).attackers m ↔ other ∈ s.attackers m ∧ ¬(other = c ∧ m ∈ npcs) := by
  induction npcs generalizing s with
  | nil => exact ⟨hSound, fun m other => by simp [retracts]⟩
  | cons first rest ih =>
      have hNpcs := retract_npcs (c := c) s first
      unfold retracts
      rw [List.foldl_cons]
      generalize (match s.npcs first with | some npc => s.put first (npc.retract c) | none => s) = between at hNpcs ⊢
      have hBetween : ∀ m npc, between.npcs m = some npc → npc.Sound := by
        intro m npc hNpc
        rw [hNpcs] at hNpc
        obtain rfl | hm := eq_or_ne m first
        · rw [Function.update_self] at hNpc
          obtain ⟨old, hOld, rfl⟩ := Option.map_eq_some_iff.mp hNpc
          exact (hSound m old hOld).retract
        · rw [Function.update_of_ne hm] at hNpc
          exact hSound m npc hNpc
      have hAttackers : ∀ m other, other ∈ between.attackers m ↔
          other ∈ s.attackers m ∧ ¬(other = c ∧ m = first) := by
        intro m other
        obtain rfl | hm := eq_or_ne m first
        · unfold State.attackers
          rw [hNpcs, Function.update_self]
          cases hOld : s.npcs m with
          | none => simp
          | some old =>
              simp only [Option.map_some, Option.elim_some, NPC.attackers_retract,
                (hSound m old hOld).once.mem_erase_iff]
              tauto
        · simp [State.attackers, hNpcs, hm]
      obtain ⟨hRest, hRestAttackers⟩ := ih hBetween
      refine ⟨hRest, fun m other => (hRestAttackers m other).trans ?_⟩
      rw [hAttackers, List.mem_cons]
      tauto

/-- Whoever leaves with an empty list, or for ever, leaves nothing behind. -/
theorem Inv.leaves (h : Inv s) {left : Option Character} (hLeft : left.elim [] (·.unregisterNpc) = []) :
    Inv ((retracts c s (s.registered c)).setCharacter c left) := by
  obtain ⟨hSound, hAttackers⟩ := retracts_spec (c := c) (fun _ _ hNpc => h.sound hNpc) (s.registered c)
  have hGone : ∀ m other,
      other ∈ (retracts c s (s.registered c)).attackers m ↔ other ∈ s.attackers m ∧ other ≠ c := by
    intro m other
    rw [hAttackers]
    constructor
    · rintro ⟨hOld, hNot⟩
      refine ⟨hOld, ?_⟩
      rintro rfl
      exact hNot ⟨rfl, (h.both other m).mpr hOld⟩
    · rintro ⟨hOld, hOther⟩
      exact ⟨hOld, fun hBoth => hOther hBoth.1⟩
  constructor
  · exact fun hNpc => hSound _ _ hNpc
  · intro other m
    refine Iff.trans ?_ (hGone m other).symm
    obtain rfl | hOther := eq_or_ne other c
    · simp [State.registered, State.setCharacter, hLeft]
    · simpa [State.registered, State.setCharacter, retracts_characters, hOther] using h.both other m
  · intro other m hAttacker
    obtain ⟨hOld, hOther⟩ := (hGone m other).mp hAttacker
    simpa [State.Online, State.setCharacter, retracts_characters, hOther] using h.online hOld

/-- Those who are not online have no entry. -/
theorem Inv.offline (h : Inv s) (hCharacter : s.characters c = some character) (hOffline : ¬character.online) :
    character.unregisterNpc = [] := by
  rw [List.eq_nil_iff_forall_not_mem]
  intro n hn
  have hHere : n ∈ s.registered c := by simpa [State.registered, hCharacter] using hn
  obtain ⟨found, hFound, hOnline⟩ := h.online ((h.both c n).mp hHere)
  obtain rfl := Option.some.inj (hCharacter.symm.trans hFound)
  exact hOffline hOnline

theorem registered_some (hCharacter : s.characters c = some character) :
    s.registered c = character.unregisterNpc := by
  simp [State.registered, hCharacter]

theorem logout_eq (hCharacter : s.characters c = some character) (hOnline : character.online) :
    s.logout c character =
      (retracts c s (s.registered c)).setCharacter c (some { character with online := false }) := by
  rw [registered_some hCharacter]
  exact if_pos hOnline

theorem Inv.quit (h : Inv s) (hCharacter : s.characters c = some character) :
    Inv ((s.logout c character).setCharacter c none) := by
  by_cases hOnline : character.online
  · rw [logout_eq hCharacter hOnline]
    have hTwice : ((retracts c s (s.registered c)).setCharacter c (some { character with online := false })).setCharacter
        c none = (retracts c s (s.registered c)).setCharacter c none := by
      simp [State.setCharacter]
    rw [hTwice]
    exact h.leaves rfl
  · have hSame : s.logout c character = retracts c s (s.registered c) := by
      rw [registered_some hCharacter, h.offline hCharacter hOnline]
      exact if_neg hOnline
    rw [hSame]
    exact h.leaves rfl

theorem Inv.duty (h : Inv s) (hCharacter : s.characters c = some character)
    (hEmpty : character.online → character.unregisterNpc = []) : Inv (s.logout c character) := by
  by_cases hOnline : character.online
  · rw [logout_eq hCharacter hOnline]
    exact h.leaves (hEmpty hOnline)
  · have hSame : s.logout c character = s := if_neg hOnline
    rw [hSame]
    exact h

theorem logout_healthy (hHealthy : Healthy s) : Healthy (s.logout c character) := by
  unfold State.logout
  split
  next =>
    show Healthy (retracts c s character.unregisterNpc)
    generalize character.unregisterNpc = npcs
    induction npcs generalizing s with
    | nil => exact hHealthy
    | cons first rest ih =>
        unfold retracts
        rw [List.foldl_cons]
        refine ih fun m npc hNpc hAlive => ?_
        rw [retract_npcs] at hNpc
        obtain rfl | hm := eq_or_ne m first
        · rw [Function.update_self] at hNpc
          obtain ⟨old, hOld, rfl⟩ := Option.map_eq_some_iff.mp hNpc
          unfold NPC.retract at hAlive ⊢
          split at hAlive
          · exact hHealthy m old hOld hAlive
          · exact hHealthy m old hOld hAlive
        · rw [Function.update_of_ne hm] at hNpc
          exact hHealthy m npc hNpc hAlive
  next => exact hHealthy

end Logout

section Unload

variable {s : State}

theorem unloadNpc_spec (h : Inv s) (n : NpcId) : Inv (s.unloadNpc n) ∧ Calms s (s.unloadNpc n) := by
  unfold State.unloadNpc
  split
  next => exact ⟨h, fun _ _ hNpc _ => hNpc⟩
  next npc hNpc =>
    have hNpcs : ((s.unregister n npc).delete n npc).npcs = Function.update s.npcs n none := by
      simp [State.delete, unregister_eq, leave_npcs]
    refine ⟨h.wipe hNpc (fun m hm => ?_) (fun left hLeft => ?_) ?_, fun m left hLeft _ => ?_⟩
    · rw [hNpcs, Function.update_of_ne hm]
    · simp [hNpcs] at hLeft
    · -- The destructor goes over the same attackers once more.
      funext c
      show ((s.unregister n npc).unregister n npc).characters c = _
      rw [unregister_eq, unregister_eq, leave_characters, leave_characters]
      split
      · rw [Option.map_map]
        congr 1
        funext character
        exact character.without_without
      · rfl
    · rw [hNpcs] at hLeft
      obtain rfl | hm := eq_or_ne m n
      · simp at hLeft
      · rwa [Function.update_of_ne hm] at hLeft

theorem unload_spec (h : Inv s) (npcs : List NpcId) :
    Inv (npcs.foldl State.unloadNpc s) ∧ Calms s (npcs.foldl State.unloadNpc s) := by
  induction npcs generalizing s with
  | nil => exact ⟨h, fun _ _ hNpc _ => hNpc⟩
  | cons first rest ih =>
      obtain ⟨hFirst, hCalms⟩ := unloadNpc_spec h first
      obtain ⟨hRest, hRestCalms⟩ := ih hFirst
      exact ⟨hRest, hCalms.trans hRestCalms⟩

end Unload

section Arrivals

variable {s : State} {n : NpcId} {npc : NPC} {c : CharId} {character : Character}

theorem Inv.add {next : State} (h : Inv s) (hNone : s.npcs n = none)
    (hNpcs : next.npcs = Function.update s.npcs n (some npc)) (hCharacters : next.characters = s.characters)
    (hNew : npc.damagelist = [] ∧ npc.totaldamage = 0) : Inv next := by
  obtain ⟨hList, hTotal⟩ := hNew
  have hAttackers : ∀ m, next.attackers m = s.attackers m := by
    intro m
    obtain rfl | hm := eq_or_ne m n
    · simp [State.attackers, hNpcs, hNone, NPC.attackers, hList]
    · simp [State.attackers, hNpcs, hm]
  constructor
  · intro m left hLeft
    rw [hNpcs] at hLeft
    obtain rfl | hm := eq_or_ne m n
    · obtain rfl : npc = left := by simpa using hLeft
      exact ⟨by simp [NPC.damages, hList, hTotal], by simp [NPC.attackers, hList], by simp [hList], by simp [hTotal]⟩
    · exact h.sound (by rwa [Function.update_of_ne hm] at hLeft)
  · intro c m
    rw [hAttackers]
    simpa only [State.registered, hCharacters] using h.both c m
  · intro c m hAttacker
    rw [hAttackers] at hAttacker
    simpa only [State.Online, hCharacters] using h.online hAttacker

/-- A change of the NPC that leaves the damage alone. -/
theorem Inv.respawn (h : Inv s) (hNpc : s.npcs n = some npc) (hp : Int) :
    Inv (s.put n { npc with alive := true, hp := hp }) := by
  have hAttackers : ∀ m, (s.put n { npc with alive := true, hp := hp }).attackers m = s.attackers m := by
    intro m
    obtain rfl | hm := eq_or_ne m n
    · simp [State.attackers, State.put, hNpc, NPC.attackers]
    · simp [State.attackers, State.put, hm]
  constructor
  · intro m left hLeft
    obtain rfl | hm := eq_or_ne m n
    · simp only [State.put, Function.update_self, Option.some.injEq] at hLeft
      subst hLeft
      have hSound := h.sound hNpc
      exact ⟨hSound.total, hSound.once, hSound.positive, hSound.small⟩
    · exact h.sound (by simpa [State.put, hm] using hLeft)
  · intro c m
    rw [hAttackers]
    exact h.both c m
  · intro c m hAttacker
    rw [hAttackers] at hAttacker
    exact h.online hAttacker

/-- A character that is new, or comes online. -/
theorem Inv.login (h : Inv s) (hSame : s.registered c = character.unregisterNpc)
    (hOnline : s.Online c → character.online) : Inv (s.setCharacter c (some character)) := by
  constructor
  · exact h.sound
  · intro other m
    refine Iff.trans ?_ (h.both other m)
    obtain rfl | hOther := eq_or_ne other c
    · rw [hSame]
      simp [State.registered, State.setCharacter]
    · simp [State.registered, State.setCharacter, hOther]
  · intro other m hAttacker
    have hOld : s.Online other := h.online hAttacker
    obtain rfl | hOther := eq_or_ne other c
    · exact ⟨character, by simp [State.setCharacter], hOnline hOld⟩
    · simpa [State.Online, State.setCharacter, hOther] using hOld

theorem Healthy.put (h : Healthy s) (hHp : npc.alive → 0 ≤ npc.hp) : Healthy (s.put n npc) := by
  intro m left hLeft
  obtain rfl | hm := eq_or_ne m n
  · simp only [State.put, Function.update_self, Option.some.injEq] at hLeft
    exact hLeft ▸ hHp
  · exact h m left (by simpa [State.put, hm] using hLeft)

end Arrivals

/-- The amount is negative, or all damage together is too much for an `int`. -/
def Exceeds (s : State) : Event → Prop
  | .damage n _ amount => ∃ npc, s.npcs n = some npc ∧ (amount < 0 ∨ 2 ^ 31 ≤ npc.totaldamage + min npc.hp amount)
  | _ => False

/-- A character that has damaged an NPC goes off duty, and stays in the memory. -/
def Deserts (s : State) : Event → Prop
  | .duty c => ∃ character, s.characters c = some character ∧ character.online ∧ character.unregisterNpc ≠ []
  | _ => False

theorem Inv.agrees {s : State} (h : Inv s) : Agrees s := by
  constructor
  · exact fun n npc hNpc => ⟨(h.sound hNpc).total, (h.sound hNpc).once⟩
  · intro c character n hCharacter
    rw [← h.both, registered_some hCharacter]

theorem inv_start (limitDamage : Bool) (enf : Nat → ENF) : Inv (.start limitDamage enf) := by
  refine ⟨?_, ?_, ?_⟩ <;> simp [State.start, State.registered, State.attackers]

section Step

variable {s next : State} {event : Event}

theorem step_inv (h : Inv s) (hHealthy : Healthy s) (hWithin : ¬Exceeds s event) (hGood : ¬Deserts s event)
    (hStep : step s event = some next) : Inv next ∧ Healthy next := by
  cases event with
  | damage n c amount =>
      obtain ⟨npc, hNpc, hStep⟩ := Option.bind_eq_some_iff.mp hStep
      obtain ⟨character, hCharacter, hStep⟩ := Option.bind_eq_some_iff.mp hStep
      obtain ⟨⟨hAlive, hOnline⟩, hNext⟩ := Option.ite_none_right_eq_some.mp hStep
      obtain rfl := Option.some.inj hNext
      have hAmount : 0 ≤ amount ∧ npc.totaldamage + min npc.hp amount < 2 ^ 31 := by
        refine ⟨?_, ?_⟩
        · by_contra hNegative
          exact hWithin ⟨npc, hNpc, .inl (by omega)⟩
        · by_contra hLarge
          exact hWithin ⟨npc, hNpc, .inr (by omega)⟩
      exact damage_spec h hHealthy hNpc hAlive hCharacter hOnline hAmount.1 hAmount.2
  | killed n =>
      obtain ⟨npc, hNpc, rfl⟩ := Option.map_eq_some_iff.mp hStep
      obtain ⟨hKilled, hCalms⟩ := killed_spec h hNpc
      exact ⟨hKilled, (fall_calms.trans hCalms).healthy hHealthy⟩
  | die n =>
      obtain rfl := Option.some.inj hStep
      obtain ⟨hDie, hCalms, -⟩ := die_spec (n := n) h
      exact ⟨hDie, hCalms.healthy hHealthy⟩
  | newNpc n id map temporary =>
      obtain ⟨hFree, hNext⟩ := Option.ite_none_left_eq_some.mp hStep
      obtain rfl := Option.some.inj hNext
      have hNone : s.npcs n = none := by simpa using hFree
      exact ⟨h.add hNone rfl rfl ⟨rfl, rfl⟩, hHealthy.put (by simp)⟩
  | spawn n =>
      obtain ⟨npc, hNpc, rfl⟩ := Option.map_eq_some_iff.mp hStep
      split
      · exact ⟨h, hHealthy⟩
      · exact ⟨h.respawn hNpc _, hHealthy.put fun _ => Int.natCast_nonneg _⟩
  | unload map =>
      obtain rfl := Option.some.inj hStep
      obtain ⟨hUnload, hCalms⟩ := unload_spec h (s.maps map)
      exact ⟨⟨hUnload.sound, hUnload.both, hUnload.online⟩, hCalms.healthy hHealthy⟩
  | newCharacter c =>
      obtain ⟨hFree, hNext⟩ := Option.ite_none_left_eq_some.mp hStep
      obtain rfl := Option.some.inj hNext
      have hNone : s.characters c = none := by simpa using hFree
      refine ⟨h.login (by simp [State.registered, hNone]) ?_, hHealthy⟩
      simp [State.Online, hNone]
  | login c =>
      obtain ⟨character, hCharacter, rfl⟩ := Option.map_eq_some_iff.mp hStep
      have hSame : s.registered c = character.unregisterNpc := registered_some hCharacter
      exact ⟨h.login hSame fun _ => rfl, hHealthy⟩
  | duty c =>
      obtain ⟨character, hCharacter, rfl⟩ := Option.map_eq_some_iff.mp hStep
      refine ⟨h.duty hCharacter fun hOnline => ?_, logout_healthy hHealthy⟩
      by_contra hList
      exact hGood ⟨character, hCharacter, hOnline, hList⟩
  | quit c =>
      obtain ⟨character, hCharacter, rfl⟩ := Option.map_eq_some_iff.mp hStep
      exact ⟨h.quit hCharacter, @logout_healthy s c character hHealthy⟩
  | rehash limitDamage enf =>
      obtain rfl := Option.some.inj hStep
      exact ⟨⟨h.sound, h.both, h.online⟩, hHealthy⟩

end Step

/-- Whoever goes off duty in a fight keeps the NPC in its list. The NPC has forgotten its attacker. -/
theorem deserts_breaks {s next : State} {event : Event} (h : Inv s) (hBad : Deserts s event)
    (hStep : step s event = some next) : ¬Agrees next := by
  cases event with
  | duty c =>
      obtain ⟨character, hCharacter, hOnline, hList⟩ := hBad
      obtain ⟨found, hFound, rfl⟩ := Option.map_eq_some_iff.mp hStep
      obtain rfl := Option.some.inj (hCharacter.symm.trans hFound)
      obtain ⟨n, rest, hCons⟩ := List.exists_cons_of_ne_nil hList
      have hMember : n ∈ character.unregisterNpc := by simp [hCons]
      rintro ⟨-, hBoth⟩
      rw [logout_eq hCharacter hOnline] at hBoth
      have hAfter := (hBoth c { character with online := false } n (by simp [State.setCharacter])).mp hMember
      obtain ⟨-, hAttackers⟩ := retracts_spec (c := c) (fun _ _ hNpc => h.sound hNpc) (s.registered c)
      refine ((hAttackers n c).mp hAfter).2 ⟨rfl, ?_⟩
      rw [registered_some hCharacter]
      exact hMember
  | _ => exact absurd hBad id

def Sane (s : State) : Prop := Inv s ∧ Healthy s

/-- In a run with sensible amounts the lists agree throughout if and only if nobody deserts. -/
theorem lists_agree_iff (limitDamage : Bool) (enf : Nat → ENF) (events : List Event)
    (hWithin : Avoids step Exceeds (.start limitDamage enf) events) :
    Always step Agrees (.start limitDamage enf) events ↔ Avoids step Deserts (.start limitDamage enf) events := by
  have hKeep : ∀ s event next, Sane s → ¬Exceeds s event → ¬Deserts s event → step s event = some next →
      Sane next := by
    rintro s event next ⟨hInv, hHealthy⟩ hHere hGood hStep
    exact step_inv hInv hHealthy hHere hGood hStep
  have hBreak : ∀ s event next, Sane s → ¬Exceeds s event → Deserts s event → step s event = some next →
      ¬Agrees next := by
    rintro s event next ⟨hInv, -⟩ - hBad hStep
    exact deserts_breaks hInv hBad hStep
  have hStart : Sane (.start limitDamage enf) :=
    ⟨inv_start limitDamage enf, fun n npc hNpc => by simp [State.start] at hNpc⟩
  exact always_iff_avoids_within (fun s h => h.1.agrees) hKeep hBreak hStart hWithin

section Patrol

instance (s : State) : ∀ event, Decidable (Exceeds s event)
  | .damage n _ amount => inferInstanceAs (Decidable (∃ npc, npc ∈ s.npcs n ∧
      (amount < 0 ∨ 2 ^ 31 ≤ npc.totaldamage + min npc.hp amount)))
  | .killed _ | .die _ | .newNpc .. | .spawn _ | .unload _ | .newCharacter _ | .login _ | .duty _ | .quit _
  | .rehash .. => isFalse id

instance (s : State) : ∀ event, Decidable (Deserts s event)
  | .duty c => inferInstanceAs (Decidable (∃ character, character ∈ s.characters c ∧
      (character.online ∧ character.unregisterNpc ≠ [])))
  | .damage .. | .killed _ | .die _ | .newNpc .. | .spawn _ | .unload _ | .newCharacter _ | .login _ | .quit _
  | .rehash .. => isFalse id

def rats : Nat → ENF := fun _ => ⟨20, true, false, false⟩

/-- A guard hits a rat. -/
def patrol : List Event :=
  [.newNpc 1 1 5 false, .spawn 1, .newCharacter 2, .login 2, .damage 1 2 7]

theorem patrol_agrees : Always step Agrees (.start true rats) (patrol ++ [.damage 1 2 7, .quit 2, .unload 5]) :=
  (lists_agree_iff true rats _ (by decide)).mpr (by decide)

theorem patrol_deserts : Avoids step Exceeds (.start true rats) (patrol ++ [.duty 2]) ∧
    ¬Always step Agrees (.start true rats) (patrol ++ [.duty 2]) := by
  refine ⟨by decide, fun hAlways => ?_⟩
  obtain ⟨-, hBoth⟩ := hAlways _ _ (List.prefix_refl _) rfl
  have hAttacker := (hBoth 2 ⟨false, [1]⟩ 1 rfl).mp List.mem_cons_self
  exact absurd hAttacker (by decide)

end Patrol

end Etheos.Ledgers
