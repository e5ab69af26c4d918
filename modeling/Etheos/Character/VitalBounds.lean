import Etheos.Character.Vitals
import Etheos.General.Tables

/-! When hp and tp stay within their bounds. -/
namespace Etheos.Vitals

open Characters (IsInt toShort)
open General (double double_nonneg)

variable {cfg : Config}

theorem toShort_of_isShort {n : Int} (h : IsShort n) : toShort n = n := by
  unfold IsShort at h
  unfold toShort
  rw [Int.bmod_def]
  split <;> omega

/-- A sum of two shorts that is too large becomes negative. -/
theorem toShort_of_large {n : Int} (hLow : 2 ^ 15 ≤ n) (hHigh : n < 2 ^ 16) : toShort n = n - 2 ^ 16 := by
  unfold toShort
  rw [Int.bmod_def]
  split <;> omega

theorem isShort_toShort (n : Int) : IsShort (toShort n) := by
  unfold IsShort toShort
  rw [Int.bmod_def]
  split <;> omega

theorem castInt_of_nonneg {x : Rat} (h : 0 ≤ x) : 0 ≤ castInt x ∨ castInt x = -2 ^ 31 := by
  unfold castInt
  dsimp only
  rw [if_pos h]
  split
  · exact .inl (Int.floor_nonneg.mpr h)
  · exact .inr rfl

section Sums

variable {now added most : Int}

/-- To cut a sum when it has been stored is too late. -/
theorem cut_iff (hNow : 0 ≤ now) (hMost : now ≤ most) (hShort : IsShort most) (hAdded : IsShort added) :
    (0 ≤ min (toShort (now + added)) most ∧ min (toShort (now + added)) most ≤ most) ↔
      0 ≤ now + added ∧ now + added < 2 ^ 15 := by
  unfold IsShort at hShort hAdded
  obtain hFits | hOver := lt_or_ge (now + added) (2 ^ 15)
  · rw [toShort_of_isShort ⟨by omega, hFits⟩]
    omega
  · rw [toShort_of_large hOver (by omega)]
    omega

/-- What is taken is not more than there is, even if the amount has become the least `int`. -/
theorem taken_eq (hNow : 0 ≤ now) (hMost : now ≤ most) (hShort : IsShort most) {amount : Int}
    (hAmount : 0 ≤ amount ∨ amount = -2 ^ 31) : toShort (now - min amount now) = now - min (max amount 0) now := by
  unfold IsShort at hShort
  obtain hNonneg | rfl := hAmount
  · rw [max_eq_left hNonneg, toShort_of_isShort ⟨by omega, by omega⟩]
  · have hSame : toShort (now + 32768 * 2 ^ 16) = toShort now := Int.add_mul_bmod_self_right ..
    have hSum : now - min (-2 ^ 31) now = now + 32768 * 2 ^ 16 := by omega
    rw [hSum, hSame, toShort_of_isShort ⟨by omega, by omega⟩]
    omega

/-- The gain is nothing to cut with `LimitDamage`, and has to leave the sum a short without it. -/
theorem restore_iff (hNow : 0 ≤ now) (hMost : now ≤ most) (hShort : IsShort most) (hAdded : IsShort added)
    (hGain : 0 ≤ added) (hLimited : cfg.limitDamage → now + added ≤ most) :
    (0 ≤ Character.restore cfg now added most ∧ Character.restore cfg now added most ≤ most) ↔
      cfg.limitDamage ∨ now + added < 2 ^ 15 := by
  unfold Character.restore
  by_cases hLimit : cfg.limitDamage
  · have hWithin := hLimited hLimit
    have hFits : IsShort (now + added) := by
      unfold IsShort at hShort ⊢
      omega
    rw [if_pos hLimit, toShort_of_isShort hFits]
    simp only [hLimit, true_or, iff_true]
    omega
  · rw [if_neg hLimit, cut_iff hNow hMost hShort hAdded, or_iff_right hLimit]
    omega

end Sums

namespace Character

variable {c : Character}

def HpBounded (c : Character) : Prop := 0 ≤ c.hp ∧ c.hp ≤ c.maxhp

def TpBounded (c : Character) : Prop := 0 ≤ c.tp ∧ c.tp ≤ c.maxtp

def Bounded (c : Character) : Prop := c.HpBounded ∧ c.TpBounded

/-- The points of an item or a spell, if there is no `LimitDamage`. -/
def Holds (cfg : Config) (now points : Int) : Prop :=
  cfg.limitDamage ∨ now + points < 2 ^ 15

/-- The spell does not pay back more than there is room for. -/
def Charged (spell : Spell) (c : Character) : Prop :=
  c.tp - spell.tp ≤ c.maxtp

/-- Who comes back has an amount of hp that there is room for. -/
def Recovers (cfg : Config) (c : Character) : Prop :=
  0 ≤ c.recovered cfg ∧ c.recovered cfg ≤ c.maxhp

section Gains

theorem gain_isShort {amount missing : Int} (hAmount : IsShort amount) : IsShort (gain cfg amount missing) := by
  unfold IsShort at hAmount ⊢
  unfold gain
  split <;> omega

theorem gain_nonneg (amount missing : Int) : 0 ≤ gain cfg amount missing :=
  le_max_right _ _

theorem gain_limited {amount missing : Int} (hLimit : cfg.limitDamage) (hMissing : 0 ≤ missing) :
    gain cfg amount missing ≤ missing := by
  rw [gain, if_pos hLimit]
  omega

theorem gain_unlimited {amount missing : Int} (hLimit : ¬cfg.limitDamage) :
    gain cfg amount missing = max amount 0 := by
  rw [gain, if_neg hLimit]

theorem gain_iff {now amount most : Int} (hNow : 0 ≤ now) (hMost : now ≤ most) (hShort : IsShort most)
    (hAmount : IsShort amount) :
    (0 ≤ restore cfg now (gain cfg amount (most - now)) most ∧
      restore cfg now (gain cfg amount (most - now)) most ≤ most) ↔ Holds cfg now (max amount 0) := by
  rw [restore_iff hNow hMost hShort (gain_isShort hAmount) (gain_nonneg _ _)]
  · unfold Holds
    by_cases hLimit : cfg.limitDamage
    · simp [hLimit]
    · rw [gain_unlimited hLimit]
  · intro hLimit
    have hCut := @gain_limited cfg amount (most - now) hLimit (by omega)
    omega

theorem useItem_bounded (h : c.Bounded) (item : Item) : (c.useItem cfg item).Bounded ↔
    Holds cfg c.hp (max item.hp 0) ∧ Holds cfg c.tp (max item.tp 0) := by
  obtain ⟨⟨hHp, hMaxhp⟩, hTp, hMaxtp⟩ := h
  have hHpIff := @gain_iff cfg c.hp item.hp c.maxhp hHp hMaxhp c.maxhp_isShort item.hp_isShort
  have hTpIff := @gain_iff cfg c.tp item.tp c.maxtp hTp hMaxtp c.maxtp_isShort item.tp_isShort
  unfold useItem
  dsimp only
  split
  next hNothing =>
    refine iff_of_true ⟨⟨hHp, hMaxhp⟩, hTp, hMaxtp⟩ ?_
    unfold Holds
    by_cases hLimit : cfg.limitDamage
    · exact ⟨.inl hLimit, .inl hLimit⟩
    · rw [gain_unlimited hLimit, gain_unlimited hLimit] at hNothing
      have hHpShort := c.maxhp_isShort.2
      have hTpShort := c.maxtp_isShort.2
      exact ⟨.inr (by omega), .inr (by omega)⟩
  next => exact and_congr hHpIff hTpIff

/-- The points that a spell gives to others. -/
def points (spell : Spell) (fights : Bool) : Int :=
  if fights then max spell.hp 0 else min (max spell.hp 0) 1

theorem mend_hpBounded (h : c.HpBounded) (spell : Spell) (fights : Bool) :
    (c.mend cfg spell fights).HpBounded ↔ Holds cfg c.hp (points spell fights) := by
  obtain ⟨hHp, hMaxhp⟩ := h
  have hGain := @gain_nonneg cfg spell.hp (c.maxhp - c.hp)
  have hShort := @gain_isShort cfg spell.hp (c.maxhp - c.hp) spell.hp_isShort
  cases fights with
  | true => exact gain_iff hHp hMaxhp c.maxhp_isShort spell.hp_isShort
  | false =>
      show (0 ≤ restore cfg c.hp (min (gain cfg spell.hp (c.maxhp - c.hp)) 1) c.maxhp ∧ _) ↔ _
      refine (restore_iff hHp hMaxhp c.maxhp_isShort ?_ (by omega) ?_).trans ?_
      · unfold IsShort at hShort ⊢
        omega
      · intro hLimit
        have hCut := @gain_limited cfg spell.hp (c.maxhp - c.hp) hLimit (by omega)
        omega
      · unfold Holds points
        by_cases hLimit : cfg.limitDamage
        · simp [hLimit]
        · rw [gain_unlimited hLimit]
          rfl

theorem spend_tpBounded (h : c.TpBounded) {spell : Spell} (hAfford : spell.tp ≤ c.tp) :
    (c.spend spell).TpBounded ↔ Charged spell c := by
  obtain ⟨hTp, hMaxtp⟩ := h
  have hShort := c.maxtp_isShort
  have hCost := spell.tp_isShort
  unfold IsShort at hShort hCost
  show (0 ≤ toShort (c.tp - spell.tp) ∧ toShort (c.tp - spell.tp) ≤ c.maxtp) ↔ c.tp - spell.tp ≤ c.maxtp
  obtain hFits | hOver := lt_or_ge (c.tp - spell.tp) (2 ^ 15)
  · rw [toShort_of_isShort ⟨by omega, hFits⟩]
    omega
  · rw [toShort_of_large hOver (by omega)]
    omega

theorem spellSelf_bounded (h : c.Bounded) (spell : Spell) : (c.spellSelf cfg spell).Bounded ↔
    (spell.type = .heal → spell.tp ≤ c.tp → Charged spell c ∧ Holds cfg c.hp (max spell.hp 0)) := by
  unfold spellSelf
  dsimp only
  split
  next hNot =>
    refine iff_of_true h fun hHeal hAfford => ?_
    obtain hOther | hShort := hNot
    · exact absurd hHeal hOther
    · omega
  next hCast =>
    obtain ⟨hHeal, hAfford⟩ := not_or.mp hCast
    have hHeal := not_not.mp hHeal
    have hAfford := not_lt.mp hAfford
    obtain ⟨⟨hHp, hMaxhp⟩, hTp⟩ := h
    have hGain := @gain_isShort cfg spell.hp (c.maxhp - c.hp) spell.hp_isShort
    have hNonneg := @gain_nonneg cfg spell.hp (c.maxhp - c.hp)
    have hCut := cut_iff hHp hMaxhp c.maxhp_isShort hGain
    have hPaid := spend_tpBounded hTp hAfford
    simp only [hHeal, hAfford, true_implies]
    rw [and_comm (a := Charged spell c)]
    refine and_congr (hCut.trans ?_) hPaid
    unfold Holds
    by_cases hLimit : cfg.limitDamage
    · have hWithin := @gain_limited cfg spell.hp (c.maxhp - c.hp) hLimit (by omega)
      have hMost := c.maxhp_isShort.2
      simp only [hLimit, true_or, iff_true]
      omega
    · rw [gain_unlimited hLimit] at hNonneg ⊢
      rw [or_iff_right hLimit]
      omega

end Gains

section Losses

theorem product_nonneg {most : Int} (hMost : 0 ≤ most) {rate : Rat} (hRate : 0 < rate) :
    0 ≤ double (most * rate) :=
  double_nonneg (mul_nonneg (by exact_mod_cast hMost) hRate.le)

theorem hurt_hp (h : c.HpBounded) {amount : Int} (hAmount : 0 ≤ amount ∨ amount = -2 ^ 31) :
    (c.hurt amount).hp = c.hp - min (max amount 0) c.hp :=
  taken_eq h.1 h.2 c.maxhp_isShort hAmount

theorem hurt_bounded (h : c.Bounded) {amount : Int} (hAmount : 0 ≤ amount ∨ amount = -2 ^ 31) :
    (c.hurt amount).Bounded := by
  have hHurt := hurt_hp h.1 hAmount
  obtain ⟨⟨hHp, hMaxhp⟩, hTp⟩ := h
  refine ⟨⟨?_, ?_⟩, hTp⟩
  · rw [hHurt]
    omega
  · rw [hHurt]
    show c.hp - _ ≤ c.maxhp
    omega

theorem fall_bounded (h : c.Bounded) {amount : Int} (hAmount : 0 ≤ amount ∨ amount = -2 ^ 31) :
    ((c.hurt amount).fall cfg).Bounded ↔ (c.hp ≤ max amount 0 → c.Recovers cfg) := by
  have hHurt := hurt_hp h.1 hAmount
  have hRest := hurt_bounded h hAmount
  have hHp := h.1.1
  unfold fall
  by_cases hDead : c.hp ≤ max amount 0
  · rw [if_pos (by omega)]
    simp only [hDead, true_implies]
    exact and_iff_left_of_imp fun _ => h.2
  · rw [if_neg (by omega)]
    exact iff_of_true hRest fun hNow => absurd hNow hDead

theorem attacked_bounded (h : c.Bounded) (amount : Int) :
    (c.attacked cfg amount).Bounded ↔ (c.hp ≤ max amount 0 → c.Recovers cfg) := by
  have hNonneg : 0 ≤ max amount 0 := le_max_right _ _
  have hFall := @fall_bounded cfg c h (max amount 0) (.inl hNonneg)
  rw [max_eq_left hNonneg] at hFall
  exact hFall

theorem attacked_tpBounded (amount : Int) : (c.attacked cfg amount).TpBounded ↔ c.TpBounded := by
  unfold attacked fall
  split
  · exact Iff.rfl
  · exact Iff.rfl

theorem attacked_hpBounded (h : c.Bounded) (amount : Int) :
    (c.attacked cfg amount).HpBounded ↔ (c.hp ≤ max amount 0 → c.Recovers cfg) := by
  rw [← attacked_bounded h]
  exact (and_iff_left ((attacked_tpBounded amount).mpr h.2)).symm

theorem attacked_spend (spell : Spell) (amount : Int) :
    ((c.spend spell).attacked cfg amount).HpBounded ↔ (c.attacked cfg amount).HpBounded := by
  unfold attacked fall
  by_cases hDead : (c.hurt (max amount 0)).hp = 0
  · rw [if_pos hDead, if_pos (show ((c.spend spell).hurt (max amount 0)).hp = 0 from hDead)]
    exact Iff.rfl
  · rw [if_neg hDead, if_neg (show ¬((c.spend spell).hurt (max amount 0)).hp = 0 from hDead)]
    exact Iff.rfl

theorem spikeAmount_cases (h : c.HpBounded) (hSpikes : 0 < cfg.spikeDamage) :
    0 ≤ c.spikeAmount cfg ∨ c.spikeAmount cfg = -2 ^ 31 :=
  castInt_of_nonneg (product_nonneg (h.1.trans h.2) hSpikes)

theorem stepOnSpikes_bounded (h : c.Bounded) : (c.stepOnSpikes cfg).Bounded ↔
    (0 < cfg.spikeDamage → ¬c.hideInvisible → c.hp ≤ max (c.spikeAmount cfg) 0 → c.Recovers cfg) := by
  unfold stepOnSpikes
  split
  next hHit =>
    rw [fall_bounded h (spikeAmount_cases h.1 hHit.1)]
    constructor
    · exact fun hSafe _ _ => hSafe
    · exact fun hSafe => hSafe hHit.1 hHit.2
  next hMiss => exact iff_of_true h fun hSpikes hSeen => absurd ⟨hSpikes, hSeen⟩ hMiss

theorem timedSpikes_bounded (h : c.Bounded) (spikes : Bool) : (c.timedSpikes cfg spikes).Bounded := by
  unfold timedSpikes
  split
  · exact h
  · split
    next hHit => exact hurt_bounded h (spikeAmount_cases h.1 hHit.1)
    next => exact h

theorem timedKilled_iff (h : c.Bounded) (spikes : Bool) : c.timedKilled cfg spikes = true ↔
    ¬(c.nowhere ∨ c.hideInvisible) ∧ 0 < cfg.spikeDamage ∧ spikes ∧ c.hp ≤ max (c.spikeAmount cfg) 0 := by
  rw [timedKilled, decide_eq_true_iff]
  refine and_congr_right fun hThere => and_congr_right fun hSpikes => and_congr_right fun hHere => ?_
  rw [timedSpikes, if_neg hThere, if_pos ⟨hSpikes, hHere⟩, hurt_hp h.1 (spikeAmount_cases h.1 hSpikes)]
  have hHp := h.1.1
  omega

theorem recovers_timedSpikes (spikes : Bool) :
    ((c.timedSpikes cfg spikes).deathRespawn cfg).HpBounded ↔ c.Recovers cfg := by
  unfold timedSpikes
  split
  · exact Iff.rfl
  · split
    · exact Iff.rfl
    · exact Iff.rfl

theorem hpDrain_bounded (h : c.Bounded) : (c.hpDrain cfg).Bounded := by
  obtain ⟨⟨hHp, hMaxhp⟩, hTp⟩ := h
  have hShort := c.maxhp_isShort.2
  unfold hpDrain
  split
  · exact ⟨⟨hHp, hMaxhp⟩, hTp⟩
  · refine ⟨?_, hTp⟩
    dsimp only [HpBounded]
    rw [toShort_of_isShort ⟨by omega, by omega⟩]
    omega

theorem tpDrain_bounded (h : c.Bounded) : (c.tpDrain cfg).Bounded := by
  obtain ⟨hHp, hTp, hMaxtp⟩ := h
  unfold tpDrain
  split
  · exact ⟨hHp, hTp, hMaxtp⟩
  · split
    next hDrain =>
      refine ⟨hHp, ?_⟩
      have hAmount := castInt_of_nonneg (product_nonneg (hTp.trans hMaxtp) hDrain)
      dsimp only [TpBounded]
      rw [taken_eq hTp hMaxtp c.maxtp_isShort hAmount]
      omega
    next => exact ⟨hHp, hTp, hMaxtp⟩

end Losses

section Ticks

/-- The sum of a tick is no more than a short can hold, and not below zero. -/
def TickHolds (now added most : Int) : Prop :=
  now ≠ most → 0 ≤ now + added ∧ now + added < 2 ^ 15

theorem tick_iff {now added most : Int} (hNow : 0 ≤ now) (hMost : now ≤ most) (hShort : IsShort most)
    (hAdded : IsShort added) :
    (0 ≤ (if now ≠ most then min (toShort (now + added)) most else now) ∧
      (if now ≠ most then min (toShort (now + added)) most else now) ≤ most) ↔ TickHolds now added most := by
  unfold TickHolds
  by_cases hFull : now = most
  · simp only [hFull, ne_eq, not_true_eq_false, if_false, false_implies, iff_true]
    omega
  · rw [if_pos hFull]
    simp only [ne_eq, hFull, not_false_eq_true, true_implies]
    exact cut_iff hNow hMost hShort hAdded

theorem recover_bounded (h : c.Bounded) : (c.recover cfg).Bounded ↔
    TickHolds c.hp (c.hpPart cfg) c.maxhp ∧ TickHolds c.tp (c.tpPart cfg) c.maxtp :=
  and_congr (tick_iff h.1.1 h.1.2 c.maxhp_isShort (isShort_toShort _))
    (tick_iff h.2.1 h.2.2 c.maxtp_isShort (isShort_toShort _))

end Ticks

end Character

namespace State

variable {s : State}

def Bounded (s : State) : Prop := ∀ c, (s c).Bounded

theorem change_self (c : PlayerId) (f : Character → Character) : s.change c f c = f (s c) := by
  simp [change]

theorem change_other {c other : PlayerId} (h : other ≠ c) (f : Character → Character) :
    s.change c f other = s other := by
  simp [change, h]

theorem change_bounded (h : s.Bounded) (c : PlayerId) (f : Character → Character) :
    (s.change c f).Bounded ↔ (f (s c)).Bounded := by
  constructor
  · intro hAfter
    have hHere := hAfter c
    rwa [change_self] at hHere
  · intro hHere other
    obtain rfl | hOther := eq_or_ne other c
    · rwa [change_self]
    · rw [change_other hOther]
      exact h other

section Loops

variable {characters : List PlayerId} (hOnce : characters.Nodup) (f : PlayerId → Character → Character)
include hOnce

theorem changeAll_apply (c : PlayerId) :
    s.changeAll characters f c = if c ∈ characters then f c (s c) else s c :=
  General.foldl_update hOnce f s c

theorem changeAll_bounded (h : s.Bounded) :
    (s.changeAll characters f).Bounded ↔ ∀ c ∈ characters, (f c (s c)).Bounded := by
  constructor
  · intro hAfter c hHere
    have := hAfter c
    rwa [changeAll_apply hOnce, if_pos hHere] at this
  · intro hAll c
    rw [changeAll_apply hOnce]
    split
    next hHere => exact hAll c hHere
    next => exact h c

/-- A spell is paid in tp, and what it does to others is done to their hp. -/
theorem spend_changeAll_bounded (h : s.Bounded) {caster : PlayerId} {spell : Spell}
    (hAfford : spell.tp ≤ (s caster).tp)
    (hTp : ∀ c character, (f c character).TpBounded ↔ character.TpBounded)
    (hHp : ∀ c character, (f c (character.spend spell)).HpBounded ↔ (f c character).HpBounded) :
    ((s.change caster (·.spend spell)).changeAll characters f).Bounded ↔
      (s caster).Charged spell ∧ ∀ c ∈ characters, (f c (s c)).HpBounded := by
  have hTpAfter : ∀ c, ((s.change caster (·.spend spell)).changeAll characters f c).TpBounded ↔
      (s.change caster (·.spend spell) c).TpBounded := by
    intro c
    rw [changeAll_apply hOnce]
    split
    · exact hTp _ _
    · exact Iff.rfl
  have hHpAfter : ∀ c, ((s.change caster (·.spend spell)).changeAll characters f c).HpBounded ↔
      (c ∈ characters → (f c (s c)).HpBounded) := by
    intro c
    rw [changeAll_apply hOnce]
    obtain rfl | hOther := eq_or_ne c caster
    · rw [change_self]
      split
      next hHere => simp only [hHere, true_implies, hHp]
      next hAway => exact iff_of_true (h c).1 fun hHere => absurd hHere hAway
    · rw [change_other hOther]
      split
      next hHere => simp only [hHere, true_implies]
      next hAway => exact iff_of_true (h c).1 fun hHere => absurd hHere hAway
  have hPaid := Character.spend_tpBounded (h caster).2 hAfford
  constructor
  · intro hAfter
    refine ⟨?_, fun c => (hHpAfter c).mp (hAfter c).1⟩
    have hCaster := (hTpAfter caster).mp (hAfter caster).2
    rw [change_self] at hCaster
    exact hPaid.mp hCaster
  · rintro ⟨hCharged, hAll⟩ c
    refine ⟨(hHpAfter c).mpr (hAll c), (hTpAfter c).mpr ?_⟩
    obtain rfl | hOther := eq_or_ne c caster
    · rw [change_self]
      exact hPaid.mpr hCharged
    · rw [change_other hOther]
      exact (h c).2

end Loops

/-- A spell for one other character. -/
theorem spend_change_bounded (h : s.Bounded) {caster : PlayerId} {spell : Spell} (hAfford : spell.tp ≤ (s caster).tp)
    (victim : PlayerId) {f : Character → Character} (hTp : ∀ character, (f character).TpBounded ↔ character.TpBounded)
    (hHp : ∀ character, (f (character.spend spell)).HpBounded ↔ (f character).HpBounded) :
    ((s.change caster (·.spend spell)).change victim f).Bounded ↔
      (s caster).Charged spell ∧ (f (s victim)).HpBounded := by
  have hAll := spend_changeAll_bounded (List.nodup_singleton victim) (fun _ => f) h hAfford (fun _ => hTp)
    fun _ => hHp
  refine hAll.trans ?_
  simp

end State

/-- What it takes that an event leaves all hp and tp within their bounds. -/
def Event.Safe (cfg : Config) (s : State) : Event → Prop
  | .useItem c item =>
      Character.Holds cfg (s c).hp (max item.hp 0) ∧ Character.Holds cfg (s c).tp (max item.tp 0)
  | .spellSelf caster spell =>
      spell.type = .heal → spell.tp ≤ (s caster).tp →
        (s caster).Charged spell ∧ Character.Holds cfg (s caster).hp (max spell.hp 0)
  | .spellAttack caster spell alive =>
      (s caster).canInteractCombat → spell.type = .damage → spell.tp ≤ (s caster).tp → alive →
        (s caster).Charged spell
  | .spellAttackPK caster victim spell pk amount =>
      spell.tp ≤ (s caster).tp →
        (spell.type = .damage → pk → (s caster).canInteractPKCombat →
          (s caster).Charged spell ∧ ((s victim).hp ≤ max amount 0 → (s victim).Recovers cfg)) ∧
        (spell.type = .heal → (s caster).Charged spell ∧ Character.Holds cfg (s victim).hp
          (Character.points spell (s.fights caster pk || caster = victim)))
  | .spellGroup caster spell party pk =>
      spell.type = .heal → spell.tp ≤ (s caster).tp → ∀ joined, party = some joined →
        (s caster).Charged spell ∧ ∀ member ∈ joined.members, (s member).map = (s caster).map →
          Character.Holds cfg (s member).hp (Character.points spell (s.fights caster pk))
  | .attack victim amount => (s victim).hp ≤ max amount 0 → (s victim).Recovers cfg
  | .stepOnSpikes c =>
      0 < cfg.spikeDamage → ¬(s c).hideInvisible → (s c).hp ≤ max ((s c).spikeAmount cfg) 0 → (s c).Recovers cfg
  | .timedSpikes onMap spikes =>
      ∀ c ∈ onMap.characters, ¬((s c).nowhere ∨ (s c).hideInvisible) → 0 < cfg.spikeDamage → spikes c →
        (s c).hp ≤ max ((s c).spikeAmount cfg) 0 → (s c).Recovers cfg
  | .hpDrain _ => True
  | .tpDrain _ => True
  | .recover world => ∀ c ∈ world.characters,
      Character.TickHolds (s c).hp ((s c).hpPart cfg) (s c).maxhp ∧
        Character.TickHolds (s c).tp ((s c).tpPart cfg) (s c).maxtp

section Steps

variable {s : State} (h : s.Bounded)
include h

theorem spellAttack_bounded (caster : PlayerId) (spell : Spell) (alive : Bool) :
    (s.spellAttack caster spell alive).Bounded ↔ (Event.spellAttack caster spell alive).Safe cfg s := by
  unfold State.spellAttack Event.Safe
  split
  next hNo => exact iff_of_true h fun hYes => absurd hYes hNo
  next hFights =>
    have hFights := not_not.mp hFights
    split
    next hNot =>
      refine iff_of_true h fun _ hDamage hAfford => ?_
      obtain hOther | hShort := hNot
      · exact absurd hDamage hOther
      · omega
    next hCast =>
      obtain ⟨hDamage, hAfford⟩ := not_or.mp hCast
      have hDamage := not_not.mp hDamage
      have hAfford := not_lt.mp hAfford
      split
      next hAlive =>
        simp only [hFights, hDamage, hAfford, hAlive, true_implies]
        rw [State.change_bounded h]
        refine (and_iff_right_of_imp fun _ => (h caster).1).trans ?_
        exact Character.spend_tpBounded (h caster).2 hAfford
      next hDead => exact iff_of_true h fun _ _ _ hAlive => absurd hAlive hDead

theorem spellAttackPK_bounded (caster victim : PlayerId) (spell : Spell) (pk : Bool) (amount : Int) :
    (s.spellAttackPK cfg caster victim spell pk amount).Bounded ↔
      (Event.spellAttackPK caster victim spell pk amount).Safe cfg s := by
  unfold State.spellAttackPK Event.Safe
  split
  next hNot =>
    refine iff_of_true h fun hAfford => ?_
    obtain ⟨hHeal, hDamage⟩ | hShort := hNot
    · exact ⟨fun hYes => absurd hYes hDamage, fun hYes => absurd hYes hHeal⟩
    · omega
  next hCast =>
    obtain ⟨hType, hAfford⟩ := not_or.mp hCast
    have hAfford := not_lt.mp hAfford
    simp only [hAfford, true_implies]
    split
    next hBoth =>
      obtain ⟨hDamage, hPk⟩ := hBoth
      simp only [hDamage, hPk, true_implies, reduceCtorEq, false_implies, and_true]
      split
      next hNo => exact iff_of_true h fun hYes => absurd hYes hNo
      next hFights =>
        simp only [not_not.mp hFights, true_implies]
        rw [← Character.attacked_hpBounded (h victim)]
        exact State.spend_change_bounded h hAfford victim (fun _ => Character.attacked_tpBounded amount) fun _ =>
          Character.attacked_spend spell amount
    next hNotBoth =>
      split
      next hHeal =>
        simp only [hHeal, true_implies, reduceCtorEq, false_implies, true_and]
        rw [← Character.mend_hpBounded (h victim).1]
        exact State.spend_change_bounded h hAfford victim (fun _ => Iff.rfl) fun _ => Iff.rfl
      next hOther =>
        exact iff_of_true h ⟨fun hDamage hPk => absurd ⟨hDamage, hPk⟩ hNotBoth, fun hHeal => absurd hHeal hOther⟩

theorem spellGroup_bounded (caster : PlayerId) (spell : Spell) (party : Option Party) (pk : Bool) :
    (s.spellGroup cfg caster spell party pk).Bounded ↔ (Event.spellGroup caster spell party pk).Safe cfg s := by
  unfold State.spellGroup Event.Safe
  cases party with
  | none => exact iff_of_true h fun _ _ joined hJoined => by cases hJoined
  | some joined =>
      dsimp only
      split
      next hNot =>
        refine iff_of_true h fun hHeal hAfford => ?_
        obtain hOther | hShort := hNot
        · exact absurd hHeal hOther
        · omega
      next hCast =>
        obtain ⟨hHeal, hAfford⟩ := not_or.mp hCast
        have hHeal := not_not.mp hHeal
        have hAfford := not_lt.mp hAfford
        simp only [hHeal, hAfford, true_implies, Option.some.injEq, forall_eq']
        refine (State.spend_changeAll_bounded joined.nodup _ h hAfford ?_ ?_).trans ?_
        · intro c character
          split
          · exact Iff.rfl
          · exact Iff.rfl
        · intro c character
          by_cases hAway : character.map ≠ (s caster).map
          · rw [if_pos hAway, if_pos (show (character.spend spell).map ≠ (s caster).map from hAway)]
            exact Iff.rfl
          · rw [if_neg hAway, if_neg (show ¬(character.spend spell).map ≠ (s caster).map from hAway)]
            exact Iff.rfl
        · refine and_congr_right fun _ => forall₂_congr fun c _ => ?_
          split
          next hAway => exact iff_of_true (h c).1 fun hHere => absurd hHere hAway
          next hHere =>
            simp only [not_not.mp hHere, true_implies]
            exact Character.mend_hpBounded (h c).1 spell _

theorem timedSpikes_bounded (onMap : Crowd) (spikes : PlayerId → Bool) :
    (s.timedSpikes cfg onMap spikes).Bounded ↔ (Event.timedSpikes onMap spikes).Safe cfg s := by
  have hAfter : ((s.changeAll onMap.characters fun c character => character.timedSpikes cfg (spikes c))).Bounded :=
    (State.changeAll_bounded onMap.nodup _ h).mpr fun c _ => Character.timedSpikes_bounded (h c) (spikes c)
  unfold State.timedSpikes Event.Safe
  dsimp only
  rw [State.changeAll_bounded (onMap.nodup.filter _) _ hAfter]
  constructor
  · intro hAll c hHere hThere hSpikes hOn hDead
    have hKilled := (@Character.timedKilled_iff cfg _ (h c) (spikes c)).mpr ⟨hThere, hSpikes, hOn, hDead⟩
    have hRecovers := (hAll c (List.mem_filter.mpr ⟨hHere, hKilled⟩)).1
    rw [State.changeAll_apply onMap.nodup, if_pos hHere] at hRecovers
    exact (Character.recovers_timedSpikes (spikes c)).mp hRecovers
  · intro hSafe c hKilled
    obtain ⟨hHere, hKilled⟩ := List.mem_filter.mp hKilled
    obtain ⟨hThere, hSpikes, hOn, hDead⟩ := (Character.timedKilled_iff (h c) (spikes c)).mp hKilled
    refine ⟨?_, (hAfter c).2⟩
    rw [State.changeAll_apply onMap.nodup, if_pos hHere]
    exact (Character.recovers_timedSpikes (spikes c)).mpr (hSafe c hHere hThere hSpikes hOn hDead)

end Steps

/-- A percentage of the most is within the bounds. -/
theorem recovers_of_percentage {cfg : Config} (c : Character) (hMaxhp : 0 ≤ c.maxhp) (hLow : 0 ≤ cfg.deathRecover)
    (hHigh : cfg.deathRecover ≤ 100) : c.Recovers cfg := by
  have hShort := c.maxhp_isShort.2
  obtain ⟨n, hn⟩ := Int.eq_ofNat_of_zero_le hMaxhp
  have hSmall : n < 2 ^ 15 := by omega
  have hMost : (c.maxhp : Rat) = n := by rw [hn]; rfl
  have hFirst : (c.maxhp : Rat) * cfg.deathRecover ≤ (n * 100 : ℕ) := by
    rw [hMost]
    push_cast
    exact mul_le_mul_of_nonneg_left hHigh (Nat.cast_nonneg n)
  have hFirstNonneg : 0 ≤ (c.maxhp : Rat) * cfg.deathRecover := mul_nonneg (by exact_mod_cast hMaxhp) hLow
  have hDouble := General.double_le_natCast hFirstNonneg hFirst (by omega)
  have hSecondNonneg : 0 ≤ double (c.maxhp * cfg.deathRecover) / 100 :=
    div_nonneg (double_nonneg hFirstNonneg) (by norm_num)
  have hSecond : double (c.maxhp * cfg.deathRecover) / 100 ≤ n := by
    push_cast at hDouble
    linarith
  have hPart := General.double_le_natCast hSecondNonneg hSecond (by omega)
  have hPartNonneg := double_nonneg hSecondNonneg
  have hFloor : ⌊double (double (c.maxhp * cfg.deathRecover) / 100)⌋ ≤ n := by
    exact_mod_cast (Int.floor_le _).trans hPart
  have hFloorNonneg := Int.floor_nonneg.mpr hPartNonneg
  have hCast : castInt (double (double (c.maxhp * cfg.deathRecover) / 100)) =
      ⌊double (double (c.maxhp * cfg.deathRecover) / 100)⌋ := by
    unfold castInt
    dsimp only
    rw [if_pos hPartNonneg]
    exact if_pos ⟨by omega, by omega⟩
  unfold Character.Recovers Character.recovered
  rw [hCast, toShort_of_isShort ⟨by omega, by omega⟩]
  omega

section Potions

/-- The defaults, up to `LimitDamage`. -/
def defaults (limitDamage : Bool) : Config where
  limitDamage := limitDamage
  deathRecover := 1 / 2
  spikeDamage := 1 / 5
  drainHPDamage := 1 / 5
  drainTPDamage := 1 / 10
  hpRecoverRate := 1 / 10
  sitHPRecoverRate := 1 / 5
  tpRecoverRate := 1 / 10
  sitTPRecoverRate := 1 / 5

def wounded : Character where
  hp := 10
  tp := 0
  maxhp := 100
  maxtp := 0
  map := 5
  spawnMap := 5
  nowhere := false
  hideInvisible := false
  sitting := false
  canInteractCombat := true
  canInteractPKCombat := true
  maxhp_isShort := ⟨by decide, by decide⟩
  maxtp_isShort := ⟨by decide, by decide⟩

/-- All are like this one. -/
def ward : State := fun _ => wounded

/-- The most that a short can hold. -/
def elixir : Item :=
  ⟨32767, 0, ⟨by decide, by decide⟩, ⟨by decide, by decide⟩⟩

theorem bounded_ward : ward.Bounded := fun _ =>
  show wounded.Bounded from ⟨⟨by decide, by decide⟩, by decide, by decide⟩

end Potions

end Etheos.Vitals
