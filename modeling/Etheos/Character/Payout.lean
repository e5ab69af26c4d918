import Etheos.Character.Levels
import Etheos.General.Entries
import Etheos.General.Shares
import Mathlib.Algebra.BigOperators.Ring.Finset

/-! What attackers and their parties get of the experience of a killed NPC. -/
namespace Etheos.Experience

open Characters (IsInt toInt isInt_toInt)
open General (double double_zero)

variable {cfg : Config} {p : PartyId}

namespace State

variable {s : State}

/-- `ShareEXP` does not return before its second loop. -/
def Pays (s : State) (p : PartyId) (map : Nat) : Prop :=
  ¬((s.sharing p map).length = 0 ∨ s.sumlevel p map = 0)

instance (map : Nat) : Decidable (s.Pays p map) := inferInstanceAs (Decidable (¬_))

/-- One member that shares is enough, as there is no level that counts for nothing. -/
theorem pays_iff (map : Nat) : s.Pays p map ↔ ∃ c ∈ (s.parties p).members, s.shares map c := by
  constructor
  · intro hPays
    obtain ⟨c, hHere⟩ := List.exists_mem_of_ne_nil (s.sharing p map) (by
      intro hNobody
      exact hPays (.inl (by rw [hNobody]; rfl)))
    obtain ⟨hMember, hShares⟩ := List.mem_filter.mp hHere
    exact ⟨c, hMember, by simpa using hShares⟩
  · rintro ⟨c, hMember, hShares⟩
    obtain ⟨hLength, hSum⟩ := counted hMember hShares
    exact not_or.mpr ⟨hLength, hSum⟩

end State

namespace Award

/-- What the award puts by for the party. -/
def pooledFor (p : PartyId) : Award → Int
  | .pool q exp => if q = p then exp else 0
  | _ => 0

/-- What the award gives to the members of the party to share. -/
def paidTo (s : State) (p : PartyId) : Award → Int
  | .share q exp _ map => if q = p ∧ s.Pays p map then exp else 0
  | .drain q _ map => if q = p ∧ s.Pays p map then (s.parties p).tempExpsum else 0
  | _ => 0

/-- The award is for one character, or is put by. -/
def Single : Award → Prop
  | .award .. => True
  | .pool .. => True
  | _ => False

end Award

/-- All that is put by for the party. -/
def pooled (p : PartyId) (awards : List Award) : Int :=
  (awards.map (Award.pooledFor p)).sum

/-- All that the members of the party have been given to share. -/
def paid (cfg : Config) (p : PartyId) : State → List Award → Int
  | _, [] => 0
  | s, award :: rest => award.paidTo s p + paid cfg p (perform cfg s award) rest

section Turns

variable {s : State} {awards : List Award}

@[simp] theorem pooled_nil : pooled p [] = 0 :=
  rfl

@[simp] theorem pooled_cons (award : Award) (rest : List Award) :
    pooled p (award :: rest) = award.pooledFor p + pooled p rest := by
  simp [pooled]

theorem pooled_append (before after : List Award) :
    pooled p (before ++ after) = pooled p before + pooled p after := by
  simp [pooled]

theorem paid_append (before after : List Award) :
    paid cfg p s (before ++ after) = paid cfg p s before + paid cfg p (before.foldl (perform cfg) s) after := by
  induction before generalizing s with
  | nil => simp [paid]
  | cons award rest ih =>
      rw [List.cons_append, paid, ih, paid, List.foldl_cons]
      ring

/-- As long as it is one character after the other, nothing is paid to a party. -/
theorem paid_single (hSingle : ∀ award ∈ awards, award.Single) : paid cfg p s awards = 0 := by
  induction awards generalizing s with
  | nil => rfl
  | cons award rest ih =>
      have hNothing : award.paidTo s p = 0 := by
        cases award with
        | award c reward => rfl
        | pool q exp => rfl
        | share q exp sharemode map => exact absurd (hSingle _ List.mem_cons_self) id
        | drain q sharemode map => exact absurd (hSingle _ List.mem_cons_self) id
      rw [paid, hNothing, ih fun later hLater => hSingle later (List.mem_cons_of_mem _ hLater), add_zero]

theorem expsum_pool (q : PartyId) (exp : Int) : ((perform cfg s (.pool q exp)).parties p).tempExpsum =
    if q = p then toInt ((s.parties p).tempExpsum + exp) else (s.parties p).tempExpsum := by
  show ((Function.update s.parties q _) p).tempExpsum = _
  split
  next h => simp [h]
  next h => simp [Ne.symm h]

/-- What is put by adds up as an `int` does. -/
theorem expsum_single (hSingle : ∀ award ∈ awards, award.Single) (hInt : IsInt (s.parties p).tempExpsum) :
    ((awards.foldl (perform cfg) s).parties p).tempExpsum = toInt ((s.parties p).tempExpsum + pooled p awards) := by
  induction awards generalizing s with
  | nil =>
      rw [List.foldl_nil, pooled_nil, add_zero, hInt.toInt_eq]
  | cons award rest ih =>
      have hRest : ∀ later ∈ rest, later.Single := fun later hLater => hSingle later (List.mem_cons_of_mem _ hLater)
      rw [List.foldl_cons, pooled_cons]
      cases award with
      | award c reward =>
          show (((rest.foldl (perform cfg) (perform cfg s (.award c reward))).parties p).tempExpsum) =
            toInt (_ + (0 + pooled p rest))
          rw [zero_add]
          exact ih hRest hInt
      | pool q exp =>
          have hExpsum := @expsum_pool cfg p s q exp
          split at hExpsum
          next hSame =>
            rw [ih hRest (by rw [hExpsum]; exact isInt_toInt _), hExpsum, Award.pooledFor, if_pos hSame, ← add_assoc]
            exact Int.bmod_add_bmod
          next hOther =>
            rw [ih hRest (by rw [hExpsum]; exact hInt), hExpsum, Award.pooledFor, if_neg hOther, zero_add]
      | share q exp sharemode map => exact absurd (hSingle _ List.mem_cons_self) id
      | drain q sharemode map => exact absurd (hSingle _ List.mem_cons_self) id

theorem pays_perform (award : Award) (map : Nat) : (perform cfg s award).Pays p map ↔ s.Pays p map := by
  rw [State.pays_iff, State.pays_iff]
  simp only [perform_parties, perform_shares]

theorem pays_performs (map : Nat) : (awards.foldl (perform cfg) s).Pays p map ↔ s.Pays p map := by
  induction awards generalizing s with
  | nil => exact Iff.rfl
  | cons award rest ih => exact (ih (s := perform cfg s award)).trans (pays_perform award map)

end Turns

section Drains

variable {s : State} (sharemode : Int) (map : Nat) {drained : List PartyId}

/-- What `Killed` does at its end. -/
def drains (sharemode : Int) (map : Nat) (drained : List PartyId) : List Award :=
  drained.map (.drain · sharemode map)

theorem expsum_drain (q : PartyId) : ((perform cfg s (.drain q sharemode map)).parties p).tempExpsum =
    if q = p then 0 else (s.parties p).tempExpsum := by
  show ((State.setExpsum _ q 0).parties p).tempExpsum = _
  simp only [State.setExpsum, State.shareExp_parties]
  split
  next h => simp [h]
  next h => simp [Ne.symm h]

theorem expsum_drains : (((drains sharemode map drained).foldl (perform cfg) s).parties p).tempExpsum =
    if p ∈ drained then 0 else (s.parties p).tempExpsum := by
  induction drained generalizing s with
  | nil => rfl
  | cons q rest ih =>
      show (((drains sharemode map rest).foldl (perform cfg) (perform cfg s _)).parties p).tempExpsum = _
      rw [ih, expsum_drain]
      simp only [List.mem_cons]
      by_cases hRest : p ∈ rest
      · simp [hRest]
      · by_cases hSame : q = p
        · simp [hSame]
        · simp [hRest, hSame, Ne.symm hSame]

/-- A party that is drained once gets what was put by for it. -/
theorem paid_drains (hOnce : drained.Nodup) : paid cfg p s (drains sharemode map drained) =
    if p ∈ drained ∧ s.Pays p map then (s.parties p).tempExpsum else 0 := by
  induction drained generalizing s with
  | nil => simp [drains, paid]
  | cons q rest ih =>
      obtain ⟨hFirst, hRest⟩ := List.nodup_cons.mp hOnce
      show Award.paidTo s p (.drain q sharemode map) + paid cfg p _ (drains sharemode map rest) = _
      rw [ih hRest, expsum_drain]
      simp only [pays_perform, Award.paidTo, List.mem_cons]
      by_cases hSame : q = p
      · subst hSame
        simp [hFirst]
      · simp [hSame, Ne.symm hSame]

end Drains

namespace Kill

variable (kill : Kill)

/-- The experience of the NPC at the rate of the server. -/
def experience : Rat :=
  double ((kill.exp : Rat) * kill.exprate)

/-- What an attacker has from the kill, for itself or for its party. -/
def share (opponent : Opponent) : Int :=
  max 0 (kill.reward opponent)

/-- The shares of the attackers of a party. -/
def sharesOf (s : State) (p : PartyId) : Int :=
  ((kill.damagelist.filter fun opponent => (s.characters opponent.attacker).party = some p).map kill.share).sum

/-- The part of an attacker, without any rounding. -/
def part (opponent : Opponent) : Rat :=
  match kill.sharemode with
  | 2 => kill.experience * ((opponent.damage : Rat) / kill.totaldamage)
  | _ => kill.experience * kill.damagelist.length

/-- The part of an attacker in doubles. -/
def inDoubles (opponent : Opponent) : Rat :=
  match kill.sharemode with
  | 2 => double (kill.experience * double ((opponent.damage : Rat) / kill.totaldamage))
  | _ => double (kill.experience * kill.damagelist.length)

/-- The doubles move no part over a whole number. -/
def Rounds : Prop :=
  ∀ opponent ∈ kill.damagelist, ⌈kill.inDoubles opponent⌉ = ⌈kill.part opponent⌉

/-- Every part is an `int`, and so is the sum of a party. -/
def Fits (s : State) : Prop :=
  (∀ opponent ∈ kill.damagelist, ⌈kill.part opponent⌉ < 2 ^ 31) ∧
    ∀ p, General.paidParts (kill.damagelist.filter fun opponent => (s.characters opponent.attacker).party = some p)
      kill.part < 2 ^ 31

/-- What it takes that the experience is paid out in full. In mode 3, a multiple of the experience goes to
everybody, and what goes to a party is lost. -/
def Payable (s : State) : Prop :=
  if 0 < kill.experience then
    kill.Fits s ∧
      if kill.sharemode = 2 then 0 < kill.totaldamage
      else (kill.damagelist.length = 1 ∨ kill.experience * kill.damagelist.length ≤ 1) ∧
        ∀ opponent ∈ kill.damagelist, (s.characters opponent.attacker).party = none
  else -(kill.damagelist.length : Rat) < kill.experience

/-- A kill in one of the modes that share the experience. The list has every attacker once, and all of
them are on the map and fight. Nothing has been put by. -/
structure Sound (s : State) : Prop where
  sharemode : kill.sharemode = 2 ∨ kill.sharemode = 3
  partysharemode : kill.partysharemode = 1 ∨ kill.partysharemode = 2
  characters : kill.characters.Nodup
  attackers : (kill.damagelist.map (·.attacker)).Nodup
  someone : kill.damagelist ≠ []
  length : kill.damagelist.length ≤ 2 ^ 31
  onMap : ∀ opponent ∈ kill.damagelist, opponent.attacker ∈ kill.characters
  shares : ∀ opponent ∈ kill.damagelist, s.shares kill.map opponent.attacker
  members : ∀ opponent ∈ kill.damagelist, ∀ p, (s.characters opponent.attacker).party = some p →
    opponent.attacker ∈ (s.parties p).members
  damage : ∀ opponent ∈ kill.damagelist, 0 ≤ opponent.damage
  totaldamage : kill.totaldamage = (kill.damagelist.map (·.damage)).sum
  tempExpsum : ∀ p, (s.parties p).tempExpsum = 0

/-- The experience is shared, and paid out in full. -/
structure PaidOut (cfg : Config) (s : State) : Prop where
  drained : ∀ p, ((step cfg s (.killed kill)).parties p).tempExpsum = 0
  given : ∀ p, (∃ opponent ∈ kill.damagelist, (s.characters opponent.attacker).party = some p) →
    paid cfg p s (kill.awards s) = kill.sharesOf s p
  enough : kill.experience ≤ (kill.damagelist.map kill.share).sum
  below : (kill.damagelist.map kill.share).sum < kill.experience + kill.damagelist.length

variable {kill} {s : State}

theorem share_nonneg (opponent : Opponent) : 0 ≤ kill.share opponent :=
  le_max_left _ _

theorem sharesOf_nonneg (p : PartyId) : 0 ≤ kill.sharesOf s p := by
  refine List.sum_nonneg fun share hShare => ?_
  obtain ⟨opponent, -, rfl⟩ := List.mem_map.mp hShare
  exact share_nonneg opponent

theorem filter_of_none
    (hNone : ¬∃ opponent ∈ kill.damagelist, (s.characters opponent.attacker).party = some p) :
    (kill.damagelist.filter fun opponent => (s.characters opponent.attacker).party = some p) = [] := by
  rw [List.filter_eq_nil_iff]
  intro opponent hThere hParty
  exact hNone ⟨opponent, hThere, by simpa using hParty⟩

theorem filter_of_unpartied (hNone : ∀ opponent ∈ kill.damagelist, (s.characters opponent.attacker).party = none) :
    (kill.damagelist.filter fun opponent => (s.characters opponent.attacker).party = some p) = [] := by
  refine filter_of_none ?_
  rintro ⟨opponent, hThere, hParty⟩
  rw [hNone opponent hThere] at hParty
  cases hParty

theorem sharesOf_of_none
    (hNone : ¬∃ opponent ∈ kill.damagelist, (s.characters opponent.attacker).party = some p) :
    kill.sharesOf s p = 0 := by
  rw [sharesOf, filter_of_none hNone]
  rfl

theorem share_le_sharesOf {opponent : Opponent} (hThere : opponent ∈ kill.damagelist)
    (hParty : (s.characters opponent.attacker).party = some p) : kill.share opponent ≤ kill.sharesOf s p := by
  refine List.single_le_sum (fun share hShare => ?_) _ (List.mem_map_of_mem (List.mem_filter.mpr
    ⟨hThere, by simpa using hParty⟩))
  obtain ⟨other, -, rfl⟩ := List.mem_map.mp hShare
  exact share_nonneg other

/-- Everybody gets the same. -/
theorem sum_share_of_same {share : Int} (hShare : ∀ opponent ∈ kill.damagelist, kill.share opponent = share) :
    (kill.damagelist.map kill.share).sum = kill.damagelist.length * share := by
  rw [List.map_congr_left hShare, List.map_const', List.sum_replicate, nsmul_eq_mul]

theorem sum_share_of_nothing {opponents : List Opponent} (hNothing : ∀ opponent ∈ opponents, kill.share opponent = 0) :
    (opponents.map kill.share).sum = 0 := by
  refine List.sum_eq_zero fun share hShare => ?_
  obtain ⟨opponent, hThere, rfl⟩ := List.mem_map.mp hShare
  exact hNothing opponent hThere

/-- There is nothing to share of an NPC without experience. -/
theorem share_of_exp (hNothing : kill.exp = 0) (opponent : Opponent) : kill.share opponent = 0 := by
  have hZero : ceilInt 0 = 0 := by
    rw [ceilInt, Int.ceil_zero]
    exact if_pos (by decide)
  have hReward : kill.reward opponent = 0 := by
    unfold reward
    simp only [hNothing, Int.cast_zero, zero_mul, double_zero]
    split <;> exact hZero
  rw [share, hReward, max_self]

theorem part_two (hMode : kill.sharemode = 2) (opponent : Opponent) :
    kill.part opponent = kill.experience * ((opponent.damage : Rat) / kill.totaldamage) := by
  simp only [part, hMode]

theorem part_three (hMode : kill.sharemode = 3) (opponent : Opponent) :
    kill.part opponent = kill.experience * kill.damagelist.length := by
  simp only [part, hMode]

namespace Sound

variable (h : kill.Sound s)
include h

theorem gets_eq (c : PlayerId) : kill.gets c = true := by
  obtain hMode | hMode := h.sharemode
  · simp [gets, hMode]
  · simp [gets, hMode]

theorem give_eq (c : PlayerId) (reward : Int) : kill.give (some p) c reward = [.pool p reward, .award c none] := by
  have hParty : kill.partysharemode ≠ 0 := by
    obtain hMode | hMode := h.partysharemode
    · rw [hMode]
      decide
    · rw [hMode]
      decide
  have hMode : ¬(kill.sharemode = 0 ∨ kill.sharemode = 1) := by
    obtain hMode | hMode := h.sharemode
    · rw [hMode]
      decide
    · rw [hMode]
      decide
  rw [give]
  simp only [if_neg hParty, if_neg hMode]

/-- What happens at the turn of an attacker. -/
theorem turn_eq {opponent : Opponent} {c : PlayerId}
    (hFound : kill.damagelist.find? (·.attacker = c) = some opponent) :
    kill.turn s c = if 0 < kill.share opponent then kill.give (s.characters c).party c (kill.share opponent)
      else if kill.exp = 0 then [] else [.award c none] := by
  unfold turn
  rw [hFound]
  simp only [h.gets_eq, true_and]
  by_cases hNothing : kill.exp = 0
  · rw [if_pos hNothing, share_of_exp hNothing, if_neg (lt_irrefl 0), if_pos hNothing]
  · rw [if_neg hNothing, if_neg hNothing]
    by_cases hReward : 0 < kill.reward opponent
    · rw [if_pos hReward, share, max_eq_right hReward.le, if_pos hReward]
    · rw [if_neg hReward, share, max_eq_left (not_lt.mp hReward), if_neg (lt_irrefl 0)]

theorem turn_single {c : PlayerId} {award : Award} (hAward : award ∈ kill.turn s c) : award.Single := by
  cases hFound : kill.damagelist.find? (·.attacker = c) with
  | none =>
      rw [turn, hFound] at hAward
      cases hAward
  | some opponent =>
      rw [h.turn_eq hFound] at hAward
      split at hAward
      · cases hParty : (s.characters c).party with
        | none =>
            rw [hParty, give, List.mem_singleton] at hAward
            rw [hAward]
            trivial
        | some p =>
            rw [hParty, h.give_eq, List.mem_pair] at hAward
            obtain rfl | rfl := hAward
            · trivial
            · trivial
      · split at hAward
        · cases hAward
        · rw [List.mem_singleton] at hAward
          rw [hAward]
          trivial

theorem pooled_turn (p : PartyId) (c : PlayerId) : pooled p (kill.turn s c) =
    (kill.damagelist.find? (·.attacker = c)).elim 0 fun opponent =>
      if (s.characters opponent.attacker).party = some p then kill.share opponent else 0 := by
  cases hFound : kill.damagelist.find? (·.attacker = c) with
  | none =>
      rw [turn, hFound]
      rfl
  | some opponent =>
      obtain rfl : opponent.attacker = c :=
        General.Entries.of_found (p := fun opponent : Opponent => opponent.attacker = c) hFound
      rw [h.turn_eq hFound, Option.elim_some]
      have hNonneg := @share_nonneg kill opponent
      split
      next hSome =>
        cases hParty : (s.characters opponent.attacker).party with
        | none => simp [give, Award.pooledFor]
        | some q => simp [h.give_eq, Award.pooledFor]
      next hNone =>
        have hZero : kill.share opponent = 0 := by omega
        split <;> simp [hZero, Award.pooledFor]

theorem pooled_turns (p : PartyId) : pooled p (kill.characters.flatMap (kill.turn s)) = kill.sharesOf s p := by
  have hTurns : ∀ characters : List PlayerId, pooled p (characters.flatMap (kill.turn s)) =
      (characters.map fun c => pooled p (kill.turn s c)).sum := by
    intro characters
    induction characters with
    | nil => rfl
    | cons c rest ih => rw [List.flatMap_cons, pooled_append, ih, List.map_cons, List.sum_cons]
  rw [hTurns]
  simp only [h.pooled_turn]
  rw [General.Entries.sum_find h.characters h.attackers h.onMap fun opponent =>
    if (s.characters opponent.attacker).party = some p then kill.share opponent else 0]
  rw [List.sum_map_ite]
  simp [sharesOf]

/-- Only the parties of attackers have something put by. -/
theorem attacker_of_pool {p : PartyId} {exp : Int}
    (hPool : Award.pool p exp ∈ kill.characters.flatMap (kill.turn s)) :
    ∃ opponent ∈ kill.damagelist, (s.characters opponent.attacker).party = some p := by
  obtain ⟨c, -, hTurn⟩ := List.mem_flatMap.mp hPool
  cases hFound : kill.damagelist.find? (·.attacker = c) with
  | none =>
      rw [turn, hFound] at hTurn
      cases hTurn
  | some opponent =>
      obtain rfl : opponent.attacker = c :=
        General.Entries.of_found (p := fun opponent : Opponent => opponent.attacker = c) hFound
      refine ⟨opponent, List.mem_of_find?_eq_some hFound, ?_⟩
      rw [h.turn_eq hFound] at hTurn
      split at hTurn
      · cases hParty : (s.characters opponent.attacker).party with
        | none => simp [hParty, give] at hTurn
        | some q =>
            rw [hParty, h.give_eq, List.mem_pair] at hTurn
            obtain hSame | hOther := hTurn
            · cases hSame
              rfl
            · cases hOther
      · split at hTurn
        · cases hTurn
        · cases List.mem_singleton.mp hTurn

theorem pays {p : PartyId}
    (hAttacker : ∃ opponent ∈ kill.damagelist, (s.characters opponent.attacker).party = some p) :
    s.Pays p kill.map := by
  obtain ⟨opponent, hThere, hParty⟩ := hAttacker
  exact (State.pays_iff _).mpr ⟨opponent.attacker, h.members opponent hThere p hParty, h.shares opponent hThere⟩

end Sound

theorem mem_parties {turns : List Award} :
    p ∈ kill.parties turns ↔ kill.sharemode = 2 ∧ ∃ exp, Award.pool p exp ∈ turns := by
  unfold parties
  split
  next hMode =>
    rw [List.mem_insertionSort, List.mem_dedup, List.mem_filterMap]
    simp only [hMode, true_and]
    constructor
    · rintro ⟨award, hAward, hParty⟩
      cases award with
      | pool q exp =>
          cases hParty
          exact ⟨exp, hAward⟩
      | award c reward => cases hParty
      | share q exp sharemode map => cases hParty
      | drain q sharemode map => cases hParty
    · rintro ⟨exp, hPool⟩
      exact ⟨.pool p exp, hPool, rfl⟩
  next hMode => simp [hMode]

theorem nodup_parties (turns : List Award) : (kill.parties turns).Nodup := by
  unfold parties
  split
  · exact (List.perm_insertionSort _ _).nodup_iff.mpr (List.nodup_dedup _)
  · exact List.nodup_nil

/-- A party that is not recorded in mode 2 has nothing put by. -/
theorem pooled_of_unrecorded {turns : List Award} (hMode : kill.sharemode = 2) (hParty : p ∉ kill.parties turns) :
    pooled p turns = 0 := by
  refine List.sum_eq_zero fun exp hExp => ?_
  obtain ⟨award, hAward, rfl⟩ := List.mem_map.mp hExp
  cases award with
  | pool q exp =>
      refine if_neg fun hSame => hParty (mem_parties.mpr ⟨hMode, exp, ?_⟩)
      rw [← hSame]
      exact hAward
  | award c reward => rfl
  | share q exp sharemode map => rfl
  | drain q sharemode map => rfl

namespace Sound

variable (h : kill.Sound s)
include h

theorem single_turns : ∀ award ∈ kill.characters.flatMap (kill.turn s), award.Single := by
  intro award hAward
  obtain ⟨c, -, hTurn⟩ := List.mem_flatMap.mp hAward
  exact h.turn_single hTurn

/-- When all characters have been seen to. -/
theorem expsum_turns (p : PartyId) :
    (((kill.characters.flatMap (kill.turn s)).foldl (perform cfg) s).parties p).tempExpsum =
      toInt (kill.sharesOf s p) := by
  have hBefore : IsInt (s.parties p).tempExpsum := by
    rw [h.tempExpsum]
    decide
  rw [expsum_single h.single_turns hBefore, h.tempExpsum, h.pooled_turns, zero_add]

theorem expsum_step (p : PartyId) : ((step cfg s (.killed kill)).parties p).tempExpsum =
    if p ∈ kill.parties (kill.characters.flatMap (kill.turn s)) then 0 else toInt (kill.sharesOf s p) := by
  show (((kill.awards s).foldl (perform cfg) s).parties p).tempExpsum = _
  unfold awards
  rw [List.foldl_append]
  exact (expsum_drains kill.partysharemode kill.map).trans (by rw [h.expsum_turns])

theorem paid_awards (p : PartyId) : paid cfg p s (kill.awards s) =
    if p ∈ kill.parties (kill.characters.flatMap (kill.turn s)) then toInt (kill.sharesOf s p) else 0 := by
  unfold awards
  dsimp only
  rw [paid_append, paid_single h.single_turns, zero_add]
  refine (paid_drains kill.partysharemode kill.map (nodup_parties _)).trans ?_
  rw [h.expsum_turns]
  simp only [pays_performs]
  by_cases hParty : p ∈ kill.parties (kill.characters.flatMap (kill.turn s))
  · obtain ⟨-, exp, hPool⟩ := mem_parties.mp hParty
    rw [if_pos ⟨hParty, h.pays (h.attacker_of_pool hPool)⟩, if_pos hParty]
  · rw [if_neg fun hBoth => hParty hBoth.1, if_neg hParty]

/-- In mode 2 all is paid, if it can be counted. -/
theorem paid_two (hMode : kill.sharemode = 2) (p : PartyId) :
    ((step cfg s (.killed kill)).parties p).tempExpsum = 0 ∧
      paid cfg p s (kill.awards s) = toInt (kill.sharesOf s p) := by
  rw [h.expsum_step, h.paid_awards]
  by_cases hParty : p ∈ kill.parties (kill.characters.flatMap (kill.turn s))
  · rw [if_pos hParty, if_pos hParty]
    exact ⟨rfl, rfl⟩
  · have hNothing := pooled_of_unrecorded hMode hParty
    rw [h.pooled_turns] at hNothing
    rw [if_neg hParty, if_neg hParty, hNothing]
    exact ⟨by decide, by decide⟩

/-- In mode 3 nothing is paid to a party. -/
theorem paid_three (hMode : kill.sharemode = 3) (p : PartyId) :
    ((step cfg s (.killed kill)).parties p).tempExpsum = toInt (kill.sharesOf s p) ∧
      paid cfg p s (kill.awards s) = 0 := by
  have hNone : p ∉ kill.parties (kill.characters.flatMap (kill.turn s)) := by
    rw [mem_parties, hMode]
    exact fun hTwo => absurd hTwo.1 (by decide)
  rw [h.expsum_step, h.paid_awards, if_neg hNone, if_neg hNone]
  exact ⟨rfl, rfl⟩

/-- A reward that is no `int` is lost. -/
theorem share_eq (hRounds : kill.Rounds) {opponent : Opponent} (hThere : opponent ∈ kill.damagelist) :
    kill.share opponent = if ⌈kill.part opponent⌉ < 2 ^ 31 then max 0 ⌈kill.part opponent⌉ else 0 := by
  have hReward : kill.reward opponent = ceilInt (kill.inDoubles opponent) := by
    unfold reward inDoubles
    obtain hMode | hMode := h.sharemode
    · simp only [hMode]
      rfl
    · simp only [hMode]
      rfl
  rw [share, hReward, ceilInt, hRounds opponent hThere]
  by_cases hInt : IsInt ⌈kill.part opponent⌉
  · rw [if_pos hInt, if_pos hInt.2]
  · rw [if_neg hInt]
    unfold IsInt at hInt
    split
    · omega
    · rfl

theorem share_of_nonpos (hRounds : kill.Rounds) {opponent : Opponent} (hThere : opponent ∈ kill.damagelist)
    (hPart : kill.part opponent ≤ 0) : kill.share opponent = 0 := by
  have hCeil : ⌈kill.part opponent⌉ ≤ 0 := Int.ceil_le.mpr (by exact_mod_cast hPart)
  rw [h.share_eq hRounds hThere, max_eq_left hCeil, ite_self]

theorem share_of_fits (hRounds : kill.Rounds) {opponent : Opponent} (hThere : opponent ∈ kill.damagelist)
    (hPart : 0 ≤ kill.part opponent) (hFits : ⌈kill.part opponent⌉ < 2 ^ 31) :
    kill.share opponent = ⌈kill.part opponent⌉ := by
  rw [h.share_eq hRounds hThere, if_pos hFits, max_eq_right (Int.ceil_nonneg hPart)]

theorem share_le (hRounds : kill.Rounds) {opponent : Opponent} (hThere : opponent ∈ kill.damagelist)
    (hPart : 0 ≤ kill.part opponent) : kill.share opponent ≤ ⌈kill.part opponent⌉ := by
  have hCeil := Int.ceil_nonneg hPart
  rw [h.share_eq hRounds hThere]
  split
  · exact (max_eq_right hCeil).le
  · exact hCeil

theorem totaldamage_nonneg : 0 ≤ kill.totaldamage := by
  rw [h.totaldamage]
  refine List.sum_nonneg fun damage hDamage => ?_
  obtain ⟨opponent, hThere, rfl⟩ := List.mem_map.mp hDamage
  exact h.damage opponent hThere

/-- The sign of a part is that of the experience. -/
theorem part_eq {opponent : Opponent} (hThere : opponent ∈ kill.damagelist) :
    ∃ ratio : Rat, 0 ≤ ratio ∧ kill.part opponent = kill.experience * ratio := by
  unfold part
  obtain hMode | hMode := h.sharemode
  · have hDamage : (0 : Rat) ≤ opponent.damage := by exact_mod_cast h.damage opponent hThere
    have hTotal : (0 : Rat) ≤ kill.totaldamage := by exact_mod_cast h.totaldamage_nonneg
    rw [hMode]
    exact ⟨_, div_nonneg hDamage hTotal, rfl⟩
  · rw [hMode]
    exact ⟨_, Nat.cast_nonneg _, rfl⟩

theorem part_nonneg (hExp : 0 ≤ kill.experience) {opponent : Opponent} (hThere : opponent ∈ kill.damagelist) :
    0 ≤ kill.part opponent := by
  obtain ⟨ratio, hRatio, hPart⟩ := h.part_eq hThere
  rw [hPart]
  exact mul_nonneg hExp hRatio

theorem part_nonpos (hExp : kill.experience ≤ 0) {opponent : Opponent} (hThere : opponent ∈ kill.damagelist) :
    kill.part opponent ≤ 0 := by
  obtain ⟨ratio, hRatio, hPart⟩ := h.part_eq hThere
  rw [hPart]
  exact mul_nonpos_of_nonpos_of_nonneg hExp hRatio

/-- In mode 2 the accounts are right if no sum is too large. -/
theorem accounts_two (hMode : kill.sharemode = 2) :
    ((∀ p, ((step cfg s (.killed kill)).parties p).tempExpsum = 0) ∧
      ∀ p, (∃ opponent ∈ kill.damagelist, (s.characters opponent.attacker).party = some p) →
        paid cfg p s (kill.awards s) = kill.sharesOf s p) ↔ ∀ p, kill.sharesOf s p < 2 ^ 31 := by
  constructor
  · rintro ⟨-, hGiven⟩ p
    by_cases hAttacker : ∃ opponent ∈ kill.damagelist, (s.characters opponent.attacker).party = some p
    · rw [← hGiven p hAttacker, (h.paid_two hMode p).2]
      exact (isInt_toInt _).2
    · rw [sharesOf_of_none hAttacker]
      decide
  · intro hSmall
    refine ⟨fun p => (h.paid_two hMode p).1, fun p _ => ?_⟩
    have hInt : IsInt (kill.sharesOf s p) := by
      have hNonneg := @sharesOf_nonneg kill s p
      have hLess := hSmall p
      exact ⟨by omega, hLess⟩
    rw [(h.paid_two hMode p).2, hInt.toInt_eq]

/-- In mode 3 they are right if there is nothing in them. -/
theorem accounts_three (hMode : kill.sharemode = 3) :
    ((∀ p, ((step cfg s (.killed kill)).parties p).tempExpsum = 0) ∧
      ∀ p, (∃ opponent ∈ kill.damagelist, (s.characters opponent.attacker).party = some p) →
        paid cfg p s (kill.awards s) = kill.sharesOf s p) ↔ ∀ p, kill.sharesOf s p = 0 := by
  constructor
  · rintro ⟨-, hGiven⟩ p
    by_cases hAttacker : ∃ opponent ∈ kill.damagelist, (s.characters opponent.attacker).party = some p
    · rw [← hGiven p hAttacker, (h.paid_three hMode p).2]
    · exact sharesOf_of_none hAttacker
  · intro hNothing
    refine ⟨fun p => ?_, fun p _ => ?_⟩
    · rw [(h.paid_three hMode p).1, hNothing p]
      decide
    · rw [(h.paid_three hMode p).2, hNothing p]

section Amounts

variable (hRounds : kill.Rounds)
include hRounds

theorem sum_share_of_fits (hExp : 0 ≤ kill.experience) {opponents : List Opponent}
    (hSub : opponents ⊆ kill.damagelist)
    (hFits : ∀ opponent ∈ opponents, ⌈kill.part opponent⌉ < 2 ^ 31) :
    (opponents.map kill.share).sum = General.paidParts opponents kill.part := by
  unfold General.paidParts
  rw [List.map_congr_left fun opponent hThere =>
    h.share_of_fits hRounds (hSub hThere) (h.part_nonneg hExp (hSub hThere)) (hFits opponent hThere)]

theorem sum_share_le (hExp : 0 ≤ kill.experience) {opponents : List Opponent} (hSub : opponents ⊆ kill.damagelist) :
    (opponents.map kill.share).sum ≤ General.paidParts opponents kill.part :=
  List.sum_le_sum fun _ hThere => h.share_le hRounds (hSub hThere) (h.part_nonneg hExp (hSub hThere))

theorem sharesOf_of_fits (hExp : 0 ≤ kill.experience)
    (hFits : ∀ opponent ∈ kill.damagelist, ⌈kill.part opponent⌉ < 2 ^ 31)
    (p : PartyId) : kill.sharesOf s p = General.paidParts
      (kill.damagelist.filter fun opponent => (s.characters opponent.attacker).party = some p) kill.part :=
  h.sum_share_of_fits hRounds hExp List.filter_sublist.subset fun opponent hThere =>
    hFits opponent (List.mem_of_mem_filter hThere)

/-- Without experience there is nothing to share. -/
theorem share_of_experience (hExp : kill.experience ≤ 0) {opponent : Opponent} (hThere : opponent ∈ kill.damagelist) :
    kill.share opponent = 0 :=
  h.share_of_nonpos hRounds hThere (h.part_nonpos hExp hThere)

end Amounts

section Two

variable (hMode : kill.sharemode = 2)
include hMode

theorem sum_part_two (hTotal : 0 < kill.totaldamage) : (kill.damagelist.map kill.part).sum = kill.experience := by
  have hWeights : (kill.damagelist.map fun opponent => (opponent.damage : Rat)).sum = kill.totaldamage := by
    rw [h.totaldamage]
    rw [Int.cast_list_sum, List.map_map]
    rfl
  have hSome : (kill.totaldamage : Rat) ≠ 0 := by exact_mod_cast hTotal.ne'
  rw [List.map_congr_left fun opponent _ => part_two hMode opponent]
  exact General.sum_parts kill.damagelist hWeights hSome

/-- What is lost with a part that is no `int` is not made up for by the rounding of the others. -/
theorem sum_share_lost (hRounds : kill.Rounds) (hExp : 0 < kill.experience) (hTotal : 0 < kill.totaldamage)
    {opponent : Opponent} (hThere : opponent ∈ kill.damagelist) (hLost : 2 ^ 31 ≤ ⌈kill.part opponent⌉) :
    ((kill.damagelist.map kill.share).sum : Rat) < kill.experience := by
  obtain ⟨before, after, hSplit⟩ := List.append_of_mem hThere
  have hNothing : kill.share opponent = 0 := by
    rw [h.share_eq hRounds hThere, if_neg (not_lt.mpr hLost)]
  have hFirst : before ⊆ kill.damagelist := by
    rw [hSplit]
    exact List.subset_append_left _ _
  have hLast : after ⊆ kill.damagelist := by
    rw [hSplit]
    exact List.subset_append_of_subset_right _ (List.subset_cons_self _ _)
  have hBeforeParts := General.paidParts_le before kill.part
  have hAfterParts := General.paidParts_le after kill.part
  have hParts := h.sum_part_two hMode hTotal
  have hLength := h.length
  rw [hSplit, General.Entries.sum_split] at hParts ⊢
  rw [hSplit, List.length_append, List.length_cons] at hLength
  have hLength : (before.length : Rat) + (after.length + 1) ≤ 2 ^ 31 := by exact_mod_cast hLength
  have hLarge : (2 : Rat) ^ 31 - 1 < kill.part opponent := by
    have := Int.lt_ceil.mp (show (2 ^ 31 - 1 : Int) < ⌈kill.part opponent⌉ by omega)
    push_cast at this
    linarith
  have hBefore : ((before.map kill.share).sum : Rat) ≤ General.paidParts before kill.part := by
    exact_mod_cast h.sum_share_le hRounds hExp.le hFirst
  have hAfter : ((after.map kill.share).sum : Rat) ≤ General.paidParts after kill.part := by
    exact_mod_cast h.sum_share_le hRounds hExp.le hLast
  rw [hNothing, zero_add, Int.cast_add]
  linarith

theorem paidOut_two (hRounds : kill.Rounds) (hExp : 0 < kill.experience) :
    kill.PaidOut cfg s ↔ kill.Fits s ∧ 0 < kill.totaldamage := by
  constructor
  · intro hPaid
    have hTotal : 0 < kill.totaldamage := by
      refine lt_of_le_of_ne h.totaldamage_nonneg fun hNone => ?_
      have hNothing : (kill.damagelist.map kill.share).sum = 0 := by
        refine sum_share_of_nothing fun opponent hThere => h.share_of_nonpos hRounds hThere ?_
        rw [part_two hMode, ← hNone]
        simp
      have hEnough := hPaid.enough
      rw [hNothing] at hEnough
      push_cast at hEnough
      linarith
    have hFits : ∀ opponent ∈ kill.damagelist, ⌈kill.part opponent⌉ < 2 ^ 31 := by
      intro opponent hThere
      by_contra hLost
      exact absurd (h.sum_share_lost hMode hRounds hExp hTotal hThere (not_lt.mp hLost)) (not_lt.mpr hPaid.enough)
    have hSmall := (h.accounts_two hMode).mp ⟨hPaid.drained, hPaid.given⟩
    refine ⟨⟨hFits, fun p => ?_⟩, hTotal⟩
    rw [← h.sharesOf_of_fits hRounds hExp.le hFits]
    exact hSmall p
  · rintro ⟨⟨hFits, hSums⟩, hTotal⟩
    have hSmall : ∀ p, kill.sharesOf s p < 2 ^ 31 := by
      intro p
      rw [h.sharesOf_of_fits hRounds hExp.le hFits]
      exact hSums p
    obtain ⟨hDrained, hGiven⟩ := (@accounts_two cfg kill s h hMode).mpr hSmall
    have hSum := h.sum_share_of_fits hRounds hExp.le (List.Subset.refl _) hFits
    have hParts := h.sum_part_two hMode hTotal
    refine ⟨hDrained, hGiven, ?_, ?_⟩
    · rw [hSum, ← hParts]
      exact General.le_paidParts _ _
    · have hBelow := General.paidParts_lt _ kill.part h.someone
      rw [hParts] at hBelow
      rw [hSum]
      exact hBelow

end Two

theorem paidOut_nothing (hRounds : kill.Rounds) (hExp : kill.experience ≤ 0) :
    kill.PaidOut cfg s ↔ -(kill.damagelist.length : Rat) < kill.experience := by
  have hShares : ∀ p, kill.sharesOf s p = 0 := fun p => sum_share_of_nothing fun opponent hThere =>
    h.share_of_experience hRounds hExp (List.mem_of_mem_filter hThere)
  have hAll : (kill.damagelist.map kill.share).sum = 0 := sum_share_of_nothing fun opponent hThere =>
    h.share_of_experience hRounds hExp hThere
  constructor
  · intro hPaid
    have hBelow := hPaid.below
    rw [hAll] at hBelow
    push_cast at hBelow
    linarith
  · intro hBelow
    have hAccounts : (∀ p, ((step cfg s (.killed kill)).parties p).tempExpsum = 0) ∧
        ∀ p, (∃ opponent ∈ kill.damagelist, (s.characters opponent.attacker).party = some p) →
          paid cfg p s (kill.awards s) = kill.sharesOf s p := by
      obtain hMode | hMode := h.sharemode
      · refine (h.accounts_two hMode).mpr fun p => ?_
        rw [hShares p]
        decide
      · exact (h.accounts_three hMode).mpr hShares
    refine ⟨hAccounts.1, hAccounts.2, ?_, ?_⟩
    · rw [hAll]
      exact_mod_cast hExp
    · rw [hAll]
      push_cast
      linarith

section Three

variable (hMode : kill.sharemode = 3)
include hMode

theorem share_three (hRounds : kill.Rounds) (hExp : 0 < kill.experience) {opponent : Opponent}
    (hThere : opponent ∈ kill.damagelist) : kill.share opponent =
      if ⌈kill.experience * kill.damagelist.length⌉ < 2 ^ 31 then ⌈kill.experience * kill.damagelist.length⌉
      else 0 := by
  have hNonneg := Int.ceil_nonneg (h.part_nonneg hExp.le hThere)
  rw [h.share_eq hRounds hThere, max_eq_right hNonneg, part_three hMode]

theorem paidOut_three (hRounds : kill.Rounds) (hExp : 0 < kill.experience) :
    kill.PaidOut cfg s ↔ kill.Fits s ∧ (kill.damagelist.length = 1 ∨ kill.experience * kill.damagelist.length ≤ 1) ∧
      ∀ opponent ∈ kill.damagelist, (s.characters opponent.attacker).party = none := by
  have hLength : 0 < kill.damagelist.length := List.length_pos_iff.mpr h.someone
  let share := ⌈kill.experience * kill.damagelist.length⌉
  have hPart : ∀ opponent, ⌈kill.part opponent⌉ = share := fun opponent => by rw [part_three hMode]
  have hPos : 0 < share := Int.ceil_pos.mpr (mul_pos hExp (by exact_mod_cast hLength))
  have hShare : share < 2 ^ 31 → ∀ opponent ∈ kill.damagelist, kill.share opponent = share := by
    intro hFits opponent hThere
    rw [h.share_three hMode hRounds hExp hThere, if_pos hFits]
  constructor
  · intro hPaid
    have hFits : share < 2 ^ 31 := by
      by_contra hLost
      have hNothing : (kill.damagelist.map kill.share).sum = 0 := sum_share_of_nothing fun opponent hThere => by
        rw [h.share_three hMode hRounds hExp hThere, if_neg hLost]
      have hEnough := hPaid.enough
      rw [hNothing] at hEnough
      push_cast at hEnough
      linarith
    have hNone : ∀ opponent ∈ kill.damagelist, (s.characters opponent.attacker).party = none := by
      intro opponent hThere
      rw [Option.eq_none_iff_forall_ne_some]
      intro p hParty
      have hNothing := (h.accounts_three hMode).mp ⟨hPaid.drained, hPaid.given⟩ p
      have hSome := share_le_sharesOf hThere hParty
      rw [hNothing, hShare hFits opponent hThere] at hSome
      omega
    refine ⟨⟨fun opponent _ => by rw [hPart]; exact hFits, fun p => ?_⟩, ?_, hNone⟩
    · rw [filter_of_unpartied hNone, General.paidParts_nil]
      decide
    · have hBelow := hPaid.below
      rw [sum_share_of_same (hShare hFits)] at hBelow
      push_cast at hBelow
      exact (General.multiples_lt_iff hExp hLength).mp hBelow
  · rintro ⟨⟨hFits, -⟩, hFew, hNone⟩
    obtain ⟨opponent, hThere⟩ := List.exists_mem_of_length_pos hLength
    have hFits : share < 2 ^ 31 := by
      rw [← hPart opponent]
      exact hFits opponent hThere
    have hNothing : ∀ p, kill.sharesOf s p = 0 := by
      intro p
      rw [sharesOf, filter_of_unpartied hNone]
      rfl
    obtain ⟨hDrained, hGiven⟩ := (@accounts_three cfg kill s h hMode).mpr hNothing
    refine ⟨hDrained, hGiven, ?_, ?_⟩
    · rw [sum_share_of_same (hShare hFits)]
      push_cast
      exact General.le_multiples hExp hLength
    · rw [sum_share_of_same (hShare hFits)]
      push_cast
      exact (General.multiples_lt_iff hExp hLength).mpr hFew

end Three

end Sound

/-- Mode 2 pays all, if the numbers are not too large. Mode 3 pays too much, or loses what is for a party. -/
theorem experience_paid_iff (cfg : Config) (hSound : kill.Sound s) (hRounds : kill.Rounds) :
    kill.PaidOut cfg s ↔ kill.Payable s := by
  unfold Payable
  split
  next hExp =>
    obtain hMode | hMode := hSound.sharemode
    · rw [if_pos hMode]
      exact hSound.paidOut_two hMode hRounds hExp
    · rw [if_neg (by rw [hMode]; decide)]
      exact hSound.paidOut_three hMode hRounds hExp
  next hNothing => exact hSound.paidOut_nothing hRounds (not_lt.mp hNothing)

section Hunters

/-- 1 and 2 are a party, and 3 is alone. -/
def hunters : State where
  characters c := ⟨0, 0, 0, 0, 5, false, true, if c = 3 then none else some 9⟩
  parties _ := ⟨[1, 2], nodup_duo, 0⟩

/-- 1 has done three quarters of the damage, and 3 the rest. -/
def quarters (sharemode : Int) : Kill where
  killer := 1
  map := 5
  characters := [1, 2, 3]
  damagelist := [⟨1, 3⟩, ⟨3, 1⟩]
  totaldamage := 4
  exp := 100
  exprate := 1
  sharemode := sharemode
  partysharemode := 2

theorem experience_quarters (sharemode : Int) : (quarters sharemode).experience = 100 := by
  have hAll : double 100 = 100 := by exact_mod_cast General.double_natCast (n := 100) (by decide)
  show double (((100 : Int) : Rat) * 1) = 100
  norm_num [hAll]

theorem rounds_quarters : (quarters 2).Rounds := by
  have hThree : double (3 / 4) = 3 / 4 := by
    have := General.double_dyadic (n := 3) (k := 2) (by decide) (by decide)
    norm_num at this
    exact this
  have hOne : double (1 / 4) = 1 / 4 := by
    have := General.double_dyadic (n := 1) (k := 2) (by decide) (by decide)
    norm_num at this
    simpa using this
  have hMost : double 75 = 75 := by exact_mod_cast General.double_natCast (n := 75) (by decide)
  have hRest : double 25 = 25 := by exact_mod_cast General.double_natCast (n := 25) (by decide)
  intro opponent hThere
  simp only [inDoubles, part, experience_quarters]
  obtain rfl | rfl : opponent = ⟨1, 3⟩ ∨ opponent = ⟨3, 1⟩ := by simpa [quarters] using hThere
  · norm_num [quarters, hThree, hMost]
  · norm_num [quarters, hOne, hRest]

theorem sound_quarters {sharemode : Int} (hMode : sharemode = 2 ∨ sharemode = 3) :
    (quarters sharemode).Sound hunters where
  sharemode := hMode
  partysharemode := .inr rfl
  characters := by simp [quarters]
  attackers := by simp [quarters]
  someone := by simp [quarters]
  length := by simp [quarters]
  onMap := by simp [quarters]
  shares := by simp [quarters, State.shares, hunters]
  members := by simp [quarters, hunters]
  damage := by simp [quarters]
  totaldamage := by simp [quarters]
  tempExpsum _ := rfl

theorem part_quarters : (quarters 2).part ⟨1, 3⟩ = 75 ∧ (quarters 2).part ⟨3, 1⟩ = 25 := by
  simp only [part, experience_quarters]
  norm_num [quarters]

theorem payable_quarters : (quarters 2).Payable hunters := by
  obtain ⟨hMost, hRest⟩ := part_quarters
  have hMost : ⌈(quarters 2).part ⟨1, 3⟩⌉ = 75 := by rw [hMost]; exact Int.ceil_natCast 75
  have hRest : ⌈(quarters 2).part ⟨3, 1⟩⌉ = 25 := by rw [hRest]; exact Int.ceil_natCast 25
  rw [Payable, if_pos (by rw [experience_quarters]; norm_num)]
  refine ⟨⟨?_, fun p => ?_⟩, by decide⟩
  · intro opponent hThere
    obtain rfl | rfl : opponent = ⟨1, 3⟩ ∨ opponent = ⟨3, 1⟩ := by simpa [quarters] using hThere
    · rw [hMost]
      decide
    · rw [hRest]
      decide
  · by_cases hParty : p = 9
    · have hFilter : (quarters 2).damagelist.filter (fun opponent =>
          (hunters.characters opponent.attacker).party = some p) = [⟨1, 3⟩] := by
        subst hParty
        rfl
      rw [hFilter, General.paidParts_cons, hMost, General.paidParts_nil]
      decide
    · have hFilter : (quarters 2).damagelist.filter (fun opponent =>
          (hunters.characters opponent.attacker).party = some p) = [] := by
        simp [quarters, hunters, Ne.symm hParty]
      rw [hFilter, General.paidParts_nil]
      decide

theorem experience_paid_iff_quarters : (quarters 2).PaidOut standard hunters :=
  (experience_paid_iff standard (sound_quarters (.inl rfl)) rounds_quarters).mpr payable_quarters

/-- In mode 3 the two have 200 each of an NPC with 100. -/
theorem twice_for_each : ¬(quarters 3).PaidOut standard hunters := by
  intro hPaid
  have hTwice : double 200 = 200 := by exact_mod_cast General.double_natCast (n := 200) (by decide)
  have hReward : ∀ opponent, (quarters 3).reward opponent = 200 := by
    intro opponent
    show ceilInt (double ((quarters 3).experience * ((2 : Nat) : Rat))) = 200
    rw [experience_quarters]
    norm_num [hTwice]
    exact ceilInt_natCast (n := 200) (by decide)
  have hSum : ((quarters 3).damagelist.map (quarters 3).share).sum = ((2 : Nat) : Int) * 200 :=
    sum_share_of_same fun opponent _ => by rw [share, hReward]; rfl
  have hBelow := hPaid.below
  rw [hSum, experience_quarters] at hBelow
  norm_num [quarters] at hBelow

end Hunters

end Kill

end Etheos.Experience
