import Etheos.Character.Experience
import Mathlib.Algebra.BigOperators.Group.List.Basic
import Mathlib.Algebra.Order.BigOperators.Group.List
import Mathlib.Order.Interval.Finset.Nat

/-! Whose is what a killed NPC drops. -/
namespace Etheos.Drops

open Experience (Kill Opponent PlayerId)

/-- The one whose damage is at `rewarded_hp`, if all the damage that is counted is put end to end. -/
def lottery (inRange : PlayerId → Bool) (rewardedHp : Int) : List Opponent → Int → Option PlayerId
  | [], _ => none
  | opponent :: rest, countHp =>
      if inRange opponent.attacker then
        if rewardedHp ≥ countHp ∧ rewardedHp < opponent.damage then some opponent.attacker
        else lottery inRange rewardedHp rest (countHp + opponent.damage)
      else lottery inRange rewardedHp rest countHp

/-- The one with the number `rand` among those in range. -/
def numbered (inRange : PlayerId → Bool) (rand : Int) : List Opponent → Int → Option PlayerId
  | [], _ => none
  | opponent :: rest, i =>
      if inRange opponent.attacker then
        if rand = i then some opponent.attacker else numbered inRange rand rest (i + 1)
      else numbered inRange rand rest i

/-- `drop_winner`. The random number is asked for in the modes 2 and 3 only. -/
def dropWinner (kill : Kill) (inRange : PlayerId → Bool) (roll : Int) : Option PlayerId :=
  match kill.sharemode with
  | 0 => some kill.killer
  | 1 => Kill.mostDamage kill.damagelist 0 none
  | 2 => lottery inRange roll kill.damagelist 0
  | 3 => numbered inRange roll kill.damagelist 0
  | _ => none

/-- The `owner` of the item on the ground, which is there under the name of the killer at first. -/
def owner (kill : Kill) (inRange : PlayerId → Bool) (roll : Int) : PlayerId :=
  (dropWinner kill inRange roll).getD kill.killer

/-- All the damage of a list. -/
def dealt (opponents : List Opponent) : Int :=
  (opponents.map (·.damage)).sum

/-- The rolls that select somebody. -/
def rolls (kill : Kill) (inRange : PlayerId → Bool) (c : PlayerId) : Finset Nat :=
  (Finset.range kill.totaldamage.toNat).filter fun roll => dropWinner kill inRange roll = some c

/-- Every roll selects one of the attackers, and everybody has as many rolls as points of damage. -/
structure Fair (kill : Kill) (inRange : PlayerId → Bool) : Prop where
  everyRoll : ∀ roll, 0 ≤ roll → roll < kill.totaldamage →
    ∃ opponent ∈ kill.damagelist, dropWinner kill inRange roll = some opponent.attacker
  inProportion : ∀ opponent ∈ kill.damagelist,
    ((rolls kill inRange opponent.attacker).card : Int) =
      dealt (kill.damagelist.filter (·.attacker = opponent.attacker))

variable {kill : Kill} {inRange : PlayerId → Bool} {opponents : List Opponent}

@[simp] theorem dealt_nil : dealt [] = 0 :=
  rfl

@[simp] theorem dealt_cons (opponent : Opponent) (rest : List Opponent) :
    dealt (opponent :: rest) = opponent.damage + dealt rest := by
  simp [dealt]

@[simp] theorem dealt_append (before after : List Opponent) :
    dealt (before ++ after) = dealt before + dealt after := by
  simp [dealt]

theorem dealt_nonneg (hDamage : ∀ opponent ∈ opponents, 0 < opponent.damage) : 0 ≤ dealt opponents := by
  induction opponents with
  | nil => exact le_refl _
  | cons opponent rest ih =>
      have hFirst := hDamage opponent (List.mem_cons_self ..)
      have hRest := ih fun other hOther => hDamage other (List.mem_cons_of_mem _ hOther)
      rw [dealt_cons]
      omega

theorem dealt_pos (hDamage : ∀ opponent ∈ opponents, 0 < opponent.damage) (hSome : opponents ≠ []) :
    0 < dealt opponents := by
  cases opponents with
  | nil => exact absurd rfl hSome
  | cons opponent rest =>
      have hFirst := hDamage opponent (List.mem_cons_self ..)
      have hRest := dealt_nonneg fun other hOther => hDamage other (List.mem_cons_of_mem _ hOther)
      rw [dealt_cons]
      omega

/-- With one entry for everybody, an attacker is at one place only. -/
theorem split_unique {before after before' after' : List Opponent} {opponent opponent' : Opponent}
    (hSplit : before ++ opponent :: after = before' ++ opponent' :: after')
    (hOnce : ((before ++ opponent :: after).map (·.attacker)).Nodup)
    (hSame : opponent'.attacker = opponent.attacker) :
    before = before' ∧ opponent = opponent' ∧ after = after' := by
  rw [List.map_append, List.map_cons, List.nodup_middle, List.nodup_cons, List.mem_append, not_or] at hOnce
  have hNames := congrArg (List.map (·.attacker)) hSplit
  rw [List.map_append, List.map_cons, List.map_append, List.map_cons] at hNames
  obtain ⟨hBefore, -, -⟩ := (List.append_cons_inj_of_notMem (by rw [hSame]; exact hOnce.1.1) (by
    rw [hSame]; exact hOnce.1.2)).mp hNames
  have hLength : before.length = before'.length := by simpa using congrArg List.length hBefore
  obtain ⟨hBefore, hRest⟩ := List.append_inj hSplit hLength
  exact ⟨hBefore, List.cons.inj hRest⟩

section Lottery

variable {roll countHp : Int} {c : PlayerId}

/-- The bound below counts the damage of the others before, and the bound above does not. -/
theorem lottery_eq_some (hRange : ∀ opponent ∈ opponents, inRange opponent.attacker)
    (hDamage : ∀ opponent ∈ opponents, 0 < opponent.damage) (hCount : 0 ≤ countHp) :
    lottery inRange roll opponents countHp = some c ↔ ∃ before opponent after,
      opponents = before ++ opponent :: after ∧ opponent.attacker = c ∧
        countHp + dealt before ≤ roll ∧ roll < opponent.damage := by
  induction opponents generalizing countHp with
  | nil => simp [lottery]
  | cons first rest ih =>
      have hFirst := hDamage first (List.mem_cons_self ..)
      have hRest : ∀ opponent ∈ rest, 0 < opponent.damage := fun other hOther =>
        hDamage other (List.mem_cons_of_mem _ hOther)
      have ih := ih (fun other hOther => hRange other (List.mem_cons_of_mem _ hOther)) hRest
        (show 0 ≤ countHp + first.damage by omega)
      rw [lottery, if_pos (hRange first (List.mem_cons_self ..))]
      constructor
      · intro hWinner
        split at hWinner
        next hHit => exact ⟨[], first, rest, rfl, by simpa using hWinner, by simpa using hHit.1, hHit.2⟩
        next =>
          obtain ⟨before, opponent, after, hSplit, hAttacker, hAbove, hBelow⟩ := ih.mp hWinner
          refine ⟨first :: before, opponent, after, by rw [hSplit]; rfl, hAttacker, ?_, hBelow⟩
          rw [dealt_cons]
          omega
      · rintro ⟨before, opponent, after, hSplit, hAttacker, hAbove, hBelow⟩
        cases before with
        | nil =>
            obtain ⟨rfl, -⟩ := List.cons.inj hSplit
            rw [dealt_nil] at hAbove
            rw [if_pos ⟨by omega, hBelow⟩, hAttacker]
        | cons earlier before =>
            obtain ⟨rfl, hRestSplit⟩ := List.cons.inj hSplit
            have hBefore : 0 ≤ dealt before := dealt_nonneg fun other hOther =>
              hRest other (by rw [hRestSplit]; exact List.mem_append_left _ hOther)
            rw [dealt_cons] at hAbove
            rw [if_neg (by omega)]
            exact ih.mpr ⟨before, opponent, after, hRestSplit, hAttacker, by omega, hBelow⟩

end Lottery

/-- What a kill is like in the lottery: all are in range, all have done damage, and it is counted. -/
structure Drawn (kill : Kill) (inRange : PlayerId → Bool) : Prop where
  sharemode : kill.sharemode = 2
  inRange : ∀ opponent ∈ kill.damagelist, inRange opponent.attacker
  damage : ∀ opponent ∈ kill.damagelist, 0 < opponent.damage
  totaldamage : kill.totaldamage = dealt kill.damagelist

namespace Drawn

theorem dropWinner_eq (h : Drawn kill inRange) (roll : Int) :
    dropWinner kill inRange roll = lottery inRange roll kill.damagelist 0 := by
  simp only [dropWinner, h.sharemode]

theorem dropWinner_eq_some (h : Drawn kill inRange) {roll : Int} {c : PlayerId} :
    dropWinner kill inRange roll = some c ↔ ∃ before opponent after,
      kill.damagelist = before ++ opponent :: after ∧ opponent.attacker = c ∧
        dealt before ≤ roll ∧ roll < opponent.damage := by
  rw [h.dropWinner_eq, lottery_eq_some h.inRange h.damage le_rfl]
  simp only [zero_add]

section Split

variable (h : Drawn kill inRange) {before after : List Opponent} {opponent : Opponent}
  (hSplit : kill.damagelist = before ++ opponent :: after)

include h hSplit

theorem damage_before : ∀ other ∈ before, 0 < other.damage := fun other hOther =>
  h.damage other (by rw [hSplit]; exact List.mem_append_left _ hOther)

theorem damage_after : ∀ other ∈ after, 0 < other.damage := fun other hOther =>
  h.damage other (by rw [hSplit]; exact List.mem_append_right _ (List.mem_cons_of_mem _ hOther))

theorem totaldamage_split : kill.totaldamage = dealt before + (opponent.damage + dealt after) := by
  rw [h.totaldamage, hSplit, dealt_append, dealt_cons]

/-- With somebody beside, the damage of one is not all of it. -/
theorem damage_lt (hMore : 2 ≤ kill.damagelist.length) : opponent.damage < kill.totaldamage := by
  have hTotal := h.totaldamage_split hSplit
  have hBefore := dealt_nonneg (h.damage_before hSplit)
  have hAfter := dealt_nonneg (h.damage_after hSplit)
  have hBeside : before ≠ [] ∨ after ≠ [] := by
    by_contra hAlone
    obtain ⟨rfl, rfl⟩ : before = [] ∧ after = [] := by simpa using hAlone
    simp [hSplit] at hMore
  obtain hSome | hSome := hBeside
  · have := dealt_pos (h.damage_before hSplit) hSome
    omega
  · have := dealt_pos (h.damage_after hSplit) hSome
    omega

/-- Those before take their damage from the rolls of an attacker. -/
theorem card_rolls (hOnce : (kill.damagelist.map (·.attacker)).Nodup) :
    ((rolls kill inRange opponent.attacker).card : Int) = max 0 (opponent.damage - dealt before) := by
  have hBefore := dealt_nonneg (h.damage_before hSplit)
  have hAfter := dealt_nonneg (h.damage_after hSplit)
  have hTotal := h.totaldamage_split hSplit
  have hRolls : rolls kill inRange opponent.attacker =
      Finset.Ico (dealt before).toNat opponent.damage.toNat := by
    ext roll
    rw [rolls, Finset.mem_filter, Finset.mem_range, Finset.mem_Ico, h.dropWinner_eq_some]
    constructor
    · rintro ⟨-, before', opponent', after', hSplit', hAttacker, hAbove, hBelow⟩
      obtain ⟨rfl, rfl, -⟩ := split_unique (hSplit.symm.trans hSplit') (by rwa [hSplit] at hOnce) hAttacker
      omega
    · rintro ⟨hAbove, hBelow⟩
      exact ⟨by omega, before, opponent, after, hSplit, rfl, by omega, by omega⟩
  rw [hRolls, Nat.card_Ico]
  omega

end Split

/-- The last roll selects nobody if there is more than one attacker. -/
theorem dropWinner_last (h : Drawn kill inRange) (hMore : 2 ≤ kill.damagelist.length) :
    dropWinner kill inRange (kill.totaldamage - 1) = none := by
  rw [Option.eq_none_iff_forall_ne_some]
  intro c hWinner
  obtain ⟨before, opponent, after, hSplit, -, -, hBelow⟩ := h.dropWinner_eq_some.mp hWinner
  have hLess := h.damage_lt hSplit hMore
  omega

/-- What nobody is drawn for stays with the killer. -/
theorem owner_last (h : Drawn kill inRange) (hMore : 2 ≤ kill.damagelist.length) :
    owner kill inRange (kill.totaldamage - 1) = kill.killer := by
  rw [owner, h.dropWinner_last hMore, Option.getD_none]

theorem length_of_fair (h : Drawn kill inRange) (hFair : Fair kill inRange) : kill.damagelist.length ≤ 1 := by
  by_contra hMore
  have hMore : 2 ≤ kill.damagelist.length := by omega
  obtain ⟨opponent, hThere⟩ := List.exists_mem_of_length_pos (by omega : 0 < kill.damagelist.length)
  obtain ⟨before, after, hSplit⟩ := List.append_of_mem hThere
  have hPos := h.damage opponent hThere
  have hLess := h.damage_lt hSplit hMore
  obtain ⟨winner, -, hWinner⟩ := hFair.everyRoll (kill.totaldamage - 1) (by omega) (by omega)
  rw [h.dropWinner_last hMore] at hWinner
  cases hWinner

/-- Who is alone has all the rolls. -/
theorem fair_of_length (h : Drawn kill inRange) (hAlone : kill.damagelist.length ≤ 1) : Fair kill inRange := by
  have hTotal := h.totaldamage
  cases hList : kill.damagelist with
  | nil =>
      rw [hList, dealt_nil] at hTotal
      exact ⟨fun roll hLow hHigh => by omega, fun opponent hThere => by simp [hList] at hThere⟩
  | cons opponent rest =>
      obtain rfl : rest = [] := by
        rw [hList, List.length_cons] at hAlone
        exact List.length_eq_zero_iff.mp (by omega)
      have hSplit : kill.damagelist = [] ++ opponent :: [] := hList
      have hPos := h.damage opponent (by simp [hList])
      rw [hList, dealt_cons, dealt_nil] at hTotal
      constructor
      · intro roll hLow hHigh
        exact ⟨opponent, by simp [hList], h.dropWinner_eq_some.mpr
          ⟨[], opponent, [], hSplit, rfl, by simpa using hLow, by omega⟩⟩
      · intro other hOther
        obtain rfl : other = opponent := by simpa [hList] using hOther
        rw [h.card_rolls hSplit (by simp [hList])]
        simp only [hList, dealt_nil, List.filter_cons, decide_true, if_true, List.filter_nil, dealt_cons]
        omega

end Drawn

/-- The lottery is fair for one attacker. With more, there are rolls that select nobody. -/
theorem lottery_fair_iff (hDrawn : Drawn kill inRange) : Fair kill inRange ↔ kill.damagelist.length ≤ 1 :=
  ⟨hDrawn.length_of_fair, hDrawn.fair_of_length⟩

/-- An NPC that attackers with the damages of `damages` have killed, all beside it. -/
def killedBy (damages : List Int) : Kill where
  killer := 0
  map := 0
  characters := List.range damages.length
  damagelist := damages.zipIdx.map fun (damage, c) => ⟨c, damage⟩
  totaldamage := damages.sum
  exp := 0
  exprate := 1
  sharemode := 2
  partysharemode := 2

theorem lottery_fair_iff_alone : Fair (killedBy [10]) fun _ => true :=
  (lottery_fair_iff ⟨rfl, by decide, by decide, by decide⟩).mpr (by decide)

/-- Two have done 5 points of damage each, and the second has no roll at all. -/
theorem second_never_drawn : ¬Fair (killedBy [5, 5]) fun _ => true := by
  intro hFair
  have hNone : dropWinner (killedBy [5, 5]) (fun _ => true) 5 = none := by decide
  obtain ⟨opponent, -, hWinner⟩ := hFair.everyRoll 5 (by decide) (by decide)
  rw [hNone] at hWinner
  cases hWinner

end Etheos.Drops
