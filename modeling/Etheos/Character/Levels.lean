import Etheos.Character.Experience
import Etheos.General.Logs

/-! Where the levels agree with the experience after an award, and where they do not. -/
namespace Etheos.Experience

open Characters (toInt toShort)

variable {cfg : Config}

namespace Character

variable {character after : Character}

/-- The experience is within its limit, and the level is the highest one that it allows. -/
def Agrees (cfg : Config) (character : Character) : Prop :=
  character.exp ≤ cfg.maxExp ∧
    (character.level = cfg.maxLevel ∨ character.exp < cfg.expTable (character.level + 1))

/-- For each new level there are the points of a level, counted as a `short` is. -/
def Grown (cfg : Config) (character after : Character) : Prop :=
  ∃ gained : Nat, after.level = character.level + gained ∧
    toShort after.statpoints = toShort (character.statpoints + gained * cfg.statPerLevel) ∧
    toShort after.skillpoints = toShort (character.skillpoints + gained * cfg.skillPerLevel)

theorem Grown.refl : Grown cfg character character :=
  ⟨0, rfl, by simp, by simp⟩

theorem toShort_add_toShort (a n : Int) : toShort (toShort a + n) = toShort (a + n) :=
  Int.bmod_add_bmod

theorem Grown.trans {between : Character} (h : Grown cfg character between) (hMore : Grown cfg between after) :
    Grown cfg character after := by
  obtain ⟨gained, hLevel, hStat, hSkill⟩ := h
  obtain ⟨more, hLevel', hStat', hSkill'⟩ := hMore
  refine ⟨gained + more, by omega, ?_, ?_⟩
  · rw [hStat', ← toShort_add_toShort, hStat, toShort_add_toShort]
    congr 1
    push_cast
    ring
  · rw [hSkill', ← toShort_add_toShort, hSkill, toShort_add_toShort]
    congr 1
    push_cast
    ring

/-- Only the level and the points count. -/
theorem Grown.of_eq (hLevel : after.level = character.level) (hStat : after.statpoints = character.statpoints)
    (hSkill : after.skillpoints = character.skillpoints) : Grown cfg character after :=
  ⟨0, hLevel, by simp [hStat], by simp [hSkill]⟩

theorem grown_levelUp : Grown cfg character (character.levelUp cfg) :=
  ⟨1, rfl, by simp [levelUp, Characters.toShort_toShort], by simp [levelUp, Characters.toShort_toShort]⟩

theorem grown_levels (left : Nat) : Grown cfg character (levels cfg left character) := by
  induction left generalizing character with
  | zero => exact Grown.refl
  | succ left ih =>
      unfold levels
      split
      · exact grown_levelUp.trans ih
      · exact Grown.refl

theorem grown_settle : Grown cfg character (character.settle cfg) :=
  (Grown.of_eq rfl rfl rfl).trans (grown_levels _)

theorem grown_award (reward : Option Int) : Grown cfg character (character.award cfg reward) := by
  cases reward with
  | none => exact grown_settle
  | some reward => exact (Grown.of_eq rfl rfl rfl).trans grown_settle

theorem grown_portion (reward : Int) : Grown cfg character (character.portion cfg reward) := by
  unfold portion
  dsimp only
  split
  · exact (Grown.of_eq rfl rfl rfl).trans grown_levelUp
  · exact Grown.of_eq rfl rfl rfl

/-- The loop goes on as long as there is a level to be had, and does not touch the experience. -/
theorem levels_spec (left : Nat) (hLeft : cfg.maxLevel ≤ character.level + left) :
    (levels cfg left character).exp = character.exp ∧ ¬(levels cfg left character).Ripe cfg ∧
      (character.level ≤ cfg.maxLevel → (levels cfg left character).level ≤ cfg.maxLevel) ∧
      (cfg.maxLevel < character.level → levels cfg left character = character) := by
  induction left generalizing character with
  | zero =>
      have hEnd : cfg.maxLevel ≤ character.level := by simpa using hLeft
      exact ⟨rfl, fun hRipe => absurd hRipe.1 (not_lt.mpr hEnd), id, fun _ => rfl⟩
  | succ left ih =>
      unfold levels
      split
      next hRipe =>
        have hNext : cfg.maxLevel ≤ (character.levelUp cfg).level + left := by
          simp only [levelUp]
          push_cast at hLeft ⊢
          omega
        obtain ⟨hExp, hDone, hBelow, -⟩ := ih hNext
        refine ⟨hExp, hDone, fun _ => hBelow ?_, fun hAbove => ?_⟩
        · have := hRipe.1
          simp only [levelUp]
          push_cast
          omega
        · exact absurd hRipe.1 (by omega)
      next hDone => exact ⟨rfl, hDone, id, fun _ => rfl⟩

/-- Up to `MaxLevel` the loop always ends well. -/
theorem agrees_settle : (character.settle cfg).Agrees cfg ↔
    character.level ≤ cfg.maxLevel ∨ min character.exp cfg.maxExp < cfg.expTable (character.level + 1) := by
  have hSpec := @levels_spec cfg { character with exp := min character.exp cfg.maxExp }
    (cfg.maxLevel - character.level).toNat (by dsimp only; omega)
  obtain ⟨hExp, hDone, hBelow, hAbove⟩ := hSpec
  change (character.settle cfg).exp = _ at hExp
  change ¬(character.settle cfg).Ripe cfg at hDone
  change _ → (character.settle cfg).level ≤ cfg.maxLevel at hBelow
  change _ → character.settle cfg = _ at hAbove
  have hMax : (character.settle cfg).exp ≤ cfg.maxExp := by
    rw [hExp]
    exact min_le_right _ _
  obtain hLevel | hLevel := le_or_gt (character.level : Int) cfg.maxLevel
  · refine iff_of_true ⟨hMax, ?_⟩ (.inl hLevel)
    have hReached := hBelow hLevel
    simp only [Ripe, not_and, not_le] at hDone
    obtain hLess | hEqual := lt_or_eq_of_le hReached
    · exact .inr (hDone hLess)
    · exact .inl hEqual
  · rw [hAbove hLevel]
    simp only [Agrees, min_le_right, true_and]
    constructor
    · rintro (hLast | hNext)
      · omega
      · exact .inr hNext
    · rintro (hBelow | hNext)
      · omega
      · exact .inr hNext

/-- Those who get nothing in a kill are left as they are, if they were in order. -/
theorem settle_of_agrees (h : character.Agrees cfg) : character.settle cfg = character := by
  obtain ⟨hMax, hLevel⟩ := h
  have hUnripe : ¬character.Ripe cfg := by
    rintro ⟨hBelow, hEnough⟩
    omega
  unfold settle
  dsimp only
  rw [min_eq_left hMax]
  cases (cfg.maxLevel - character.level).toNat with
  | zero => rfl
  | succ left => exact if_neg hUnripe

/-- The character is not above `MaxLevel`, or has not the experience for one more level. -/
def Holds (cfg : Config) (character : Character) (reward : Option Int) : Prop :=
  let exp := match reward with
    | some reward => toInt (character.exp + reward)
    | none => character.exp
  character.level ≤ cfg.maxLevel ∨ min exp cfg.maxExp < cfg.expTable (character.level + 1)

theorem agrees_award (reward : Option Int) :
    (character.award cfg reward).Agrees cfg ↔ character.Holds cfg reward := by
  cases reward with
  | none => exact agrees_settle
  | some reward => exact agrees_settle

/-- The reward does not lift the character over two levels, or over `MaxExp`. -/
def Fits (cfg : Config) (character : Character) (reward : Int) : Prop :=
  let exp := toInt (character.exp + reward)
  exp ≤ cfg.maxExp ∧ (character.level = cfg.maxLevel ∨ exp < cfg.expTable (character.level + 1) ∨
    character.level + 1 = cfg.maxLevel ∨ (character.level < cfg.maxLevel ∧ exp < cfg.expTable (character.level + 2)))

instance (reward : Int) : Decidable (character.Fits cfg reward) :=
  inferInstanceAs (Decidable (_ ∧ (_ ∨ _ ∨ _ ∨ _ ∧ _)))

theorem agrees_portion (reward : Int) : (character.portion cfg reward).Agrees cfg ↔ character.Fits cfg reward := by
  unfold portion Fits
  dsimp only
  have hTable : cfg.expTable (character.level + 1) < cfg.expTable (character.level + 2) :=
    cfg.increasing (Nat.lt_succ_self _)
  split
  next hRipe =>
    obtain ⟨hLevel, hExp⟩ := hRipe
    simp only [earn] at hLevel hExp
    simp only [Agrees, levelUp, earn]
    push_cast
    constructor
    · rintro ⟨hMax, hLast | hNext⟩
      · exact ⟨hMax, .inr (.inr (.inl hLast))⟩
      · exact ⟨hMax, .inr (.inr (.inr ⟨hLevel, hNext⟩))⟩
    · rintro ⟨hMax, hLast | hNext | hLast | ⟨-, hNext⟩⟩
      · omega
      · omega
      · exact ⟨hMax, .inl hLast⟩
      · exact ⟨hMax, .inr hNext⟩
  next hUnripe =>
    simp only [Ripe, earn, not_and, not_le] at hUnripe
    simp only [Agrees, earn]
    constructor
    · rintro ⟨hMax, hLast | hNext⟩
      · exact ⟨hMax, .inl hLast⟩
      · exact ⟨hMax, .inr (.inl hNext)⟩
    · rintro ⟨hMax, hLast | hNext | hLast | ⟨hLevel, -⟩⟩
      · exact ⟨hMax, .inl hLast⟩
      · exact ⟨hMax, .inr hNext⟩
      · exact ⟨hMax, .inr (hUnripe (by omega))⟩
      · exact ⟨hMax, .inr (hUnripe hLevel)⟩

/-- What `ShareEXP` asks of a member. -/
def place (character : Character) : Bool × Nat × Bool :=
  (character.canInteractCombat, character.map, character.nowhere)

theorem place_levels (left : Nat) : (levels cfg left character).place = character.place := by
  induction left generalizing character with
  | zero => rfl
  | succ left ih =>
      unfold levels
      split
      · exact ih
      · rfl

theorem place_award (reward : Option Int) : (character.award cfg reward).place = character.place := by
  cases reward with
  | none => exact place_levels _
  | some reward => exact place_levels _

theorem place_portion (reward : Int) : (character.portion cfg reward).place = character.place := by
  unfold portion
  dsimp only
  split <;> rfl

end Character

namespace State

variable {s : State} {c : PlayerId}

theorem update_self (f : Character → Character) : (s.update c f).characters c = f (s.characters c) := by
  simp [update]

theorem update_other {other : PlayerId} (h : other ≠ c) (f : Character → Character) :
    (s.update c f).characters other = s.characters other := by
  simp [update, h]

/-- What a share comes to for a member. -/
def portionOf (s : State) (p : PartyId) (exp sharemode : Int) (map : Nat) (c : PlayerId) : Int :=
  reward sharemode exp (s.sharing p map).length (s.sumlevel p map) (s.characters c)

theorem shares_iff (map : Nat) : s.shares map c ↔ (s.characters c).place = (true, map, false) := by
  simp [shares, Character.place]

theorem shares_update (f : Character → Character) (hPlace : ∀ character, (f character).place = character.place)
    (map : Nat) (other : PlayerId) : (s.update c f).shares map other ↔ s.shares map other := by
  rw [shares_iff, shares_iff]
  by_cases h : other = c
  · rw [h, update_self, hPlace]
  · rw [update_other h]

section Members

variable (f : Character → Character) (hPlace : ∀ character, (f character).place = character.place) (map : Nat)

/-- The loop over the members. -/
def each (s : State) (members : List PlayerId) : State :=
  members.foldl (fun s member => if s.shares map member then s.update member f else s) s

include hPlace in
/-- The loop comes to everybody once. -/
theorem each_characters {members : List PlayerId} (hOnce : members.Nodup) :
    (s.each f map members).characters c =
      if c ∈ members ∧ s.shares map c then f (s.characters c) else s.characters c := by
  induction members generalizing s with
  | nil => simp [each]
  | cons member members ih =>
      obtain ⟨hFirst, hRest⟩ := List.nodup_cons.mp hOnce
      show (each f map (if s.shares map member then s.update member f else s) members).characters c = _
      rw [ih hRest]
      split
      next hShares =>
        simp only [shares_update f hPlace]
        obtain rfl | hOther := eq_or_ne c member
        · simp [hFirst, hShares, update_self]
        · simp [hOther, update_other hOther]
      next hShares =>
        obtain rfl | hOther := eq_or_ne c member
        · simp [hFirst, hShares]
        · simp [hOther]

theorem each_parties (members : List PlayerId) : (s.each f map members).parties = s.parties := by
  induction members generalizing s with
  | nil => rfl
  | cons member members ih =>
      show (each f map (if s.shares map member then s.update member f else s) members).parties = _
      rw [ih]
      split <;> rfl

end Members

/-- A member that shares is one of those that are counted. -/
theorem counted {p : PartyId} {map : Nat} (hMember : c ∈ (s.parties p).members) (hShares : s.shares map c) :
    (s.sharing p map).length ≠ 0 ∧ s.sumlevel p map ≠ 0 := by
  have hHere : c ∈ s.sharing p map := List.mem_filter.mpr ⟨hMember, by simpa using hShares⟩
  have hWeight : (s.characters c).weight ∈ (s.sharing p map).map fun m => (s.characters m).weight :=
    List.mem_map_of_mem hHere
  have hPos : 0 < (s.characters c).weight := by
    unfold Character.weight
    split <;> omega
  have hSum := List.single_le_sum (fun _ _ => Nat.zero_le _) _ hWeight
  refine ⟨?_, Nat.ne_of_gt (Nat.lt_of_lt_of_le hPos hSum)⟩
  exact List.length_pos_of_mem hHere |>.ne'

theorem shareExp_characters (p : PartyId) (exp sharemode : Int) (map : Nat) :
    (s.shareExp cfg p exp sharemode map).characters c =
      if c ∈ (s.parties p).members ∧ s.shares map c then
        (s.characters c).portion cfg (s.portionOf p exp sharemode map c)
      else s.characters c := by
  unfold shareExp
  dsimp only
  split
  next hNobody =>
    split
    next hShares =>
      obtain ⟨hMembers, hLevels⟩ := counted hShares.1 hShares.2
      exact absurd hNobody (not_or.mpr ⟨hMembers, hLevels⟩)
    next => rfl
  next => exact each_characters _ (fun _ => Character.place_portion _) map (s.parties p).nodup

theorem shareExp_parties (p : PartyId) (exp sharemode : Int) (map : Nat) :
    (s.shareExp cfg p exp sharemode map).parties = s.parties := by
  unfold shareExp
  dsimp only
  split
  · rfl
  · exact each_parties _ map _

end State

namespace Award

/-- The award is one of those that the character's experience depends on. -/
def Reaches (s : State) (c : PlayerId) : Award → Prop
  | .award c' _ => c' = c
  | .share p _ _ map => c ∈ (s.parties p).members ∧ s.shares map c
  | .pool .. => False
  | .drain p _ map => c ∈ (s.parties p).members ∧ s.shares map c

/-- The award is one that the character has something of. -/
def Rewards (s : State) (c : PlayerId) : Award → Prop
  | .award c' reward => c' = c ∧ reward.isSome
  | other => other.Reaches s c

/-- An award of its own suits every character that is not above `MaxLevel`. A share does not suit
those that it lifts over two levels, or over `MaxExp`. -/
def Fits (cfg : Config) (s : State) (c : PlayerId) : Award → Prop
  | .award _ reward => (s.characters c).Holds cfg reward
  | .share p exp sharemode map => (s.characters c).Fits cfg (s.portionOf p exp sharemode map c)
  | .pool .. => True
  | .drain p sharemode map =>
      (s.characters c).Fits cfg (s.portionOf p (s.parties p).tempExpsum sharemode map c)

end Award

section Perform

variable {s : State} {c : PlayerId} (award : Award)

theorem perform_parties (p : PartyId) : ((perform cfg s award).parties p).members = (s.parties p).members := by
  have hExpsum : ∀ (s : State) (q : PartyId) (exp : Int),
      ((s.setExpsum q exp).parties p).members = (s.parties p).members := by
    intro s q exp
    by_cases h : p = q
    · simp [State.setExpsum, h]
    · simp [State.setExpsum, h]
  cases award with
  | award c reward => rfl
  | share q exp sharemode map =>
      show ((s.shareExp cfg q exp sharemode map).parties p).members = _
      rw [State.shareExp_parties]
  | pool q exp => exact hExpsum s q _
  | drain q sharemode map =>
      refine (hExpsum _ q 0).trans ?_
      rw [State.shareExp_parties]

theorem perform_unreached (h : ¬award.Reaches s c) : (perform cfg s award).characters c = s.characters c := by
  cases award with
  | award c' reward => exact State.update_other (Ne.symm h) fun character => character.award cfg reward
  | share p exp sharemode map => exact (State.shareExp_characters _ _ _ _).trans (if_neg h)
  | pool p exp => rfl
  | drain p sharemode map => exact (State.shareExp_characters _ _ _ _).trans (if_neg h)

/-- What one award makes of a character that it reaches. -/
theorem perform_reached (h : award.Reaches s c) :
    ((perform cfg s award).characters c).Agrees cfg ↔ award.Fits cfg s c := by
  cases award with
  | award c' reward =>
      obtain rfl : c' = c := h
      show ((s.update c' fun character => character.award cfg reward).characters c').Agrees cfg ↔ _
      rw [State.update_self]
      exact Character.agrees_award reward
  | share p exp sharemode map =>
      show ((s.shareExp cfg p exp sharemode map).characters c).Agrees cfg ↔ _
      rw [State.shareExp_characters]
      rw [if_pos (show c ∈ (s.parties p).members ∧ s.shares map c from h)]
      exact Character.agrees_portion _
  | pool p exp => exact absurd h id
  | drain p sharemode map =>
      show ((s.shareExp cfg p _ sharemode map).characters c).Agrees cfg ↔ _
      rw [State.shareExp_characters]
      rw [if_pos (show c ∈ (s.parties p).members ∧ s.shares map c from h)]
      exact Character.agrees_portion _

theorem perform_grown : Character.Grown cfg (s.characters c) ((perform cfg s award).characters c) := by
  by_cases h : award.Reaches s c
  · cases award with
    | award c' reward =>
        obtain rfl : c' = c := h
        show Character.Grown cfg _ ((s.update c' fun character => character.award cfg reward).characters c')
        rw [State.update_self]
        exact Character.grown_award reward
    | share p exp sharemode map =>
        show Character.Grown cfg _ ((s.shareExp cfg p exp sharemode map).characters c)
        rw [State.shareExp_characters]
        split
        · exact Character.grown_portion _
        · exact Character.Grown.refl
    | pool p exp => exact Character.Grown.refl
    | drain p sharemode map =>
        show Character.Grown cfg _ ((s.shareExp cfg p _ sharemode map).characters c)
        rw [State.shareExp_characters]
        split
        · exact Character.grown_portion _
        · exact Character.Grown.refl
  · rw [perform_unreached award h]
    exact Character.Grown.refl

theorem perform_shares (map : Nat) : (perform cfg s award).shares map c ↔ s.shares map c := by
  rw [State.shares_iff, State.shares_iff]
  by_cases h : award.Reaches s c
  · have hPlace : ((perform cfg s award).characters c).place = (s.characters c).place := by
      cases award with
      | award c' reward =>
          obtain rfl : c' = c := h
          show ((s.update c' fun character => character.award cfg reward).characters c').place = _
          rw [State.update_self, Character.place_award]
      | share p exp sharemode map =>
          show ((s.shareExp cfg p exp sharemode map).characters c).place = _
          rw [State.shareExp_characters]
          split
          · exact Character.place_portion _
          · rfl
      | pool p exp => rfl
      | drain p sharemode map =>
          show ((s.shareExp cfg p _ sharemode map).characters c).place = _
          rw [State.shareExp_characters]
          split
          · exact Character.place_portion _
          · rfl
    rw [hPlace]
  · rw [perform_unreached award h]

/-- Awards do not change whom other awards reach. -/
theorem perform_reaches (other : Award) : other.Reaches (perform cfg s award) c ↔ other.Reaches s c := by
  cases other with
  | award c' reward => exact Iff.rfl
  | share p exp sharemode map => simp only [Award.Reaches, perform_parties, perform_shares]
  | pool p exp => exact Iff.rfl
  | drain p sharemode map => simp only [Award.Reaches, perform_parties, perform_shares]

end Perform

section Performs

variable {s : State} {c : PlayerId} (awards : List Award)

theorem performs_reaches (other : Award) : other.Reaches (awards.foldl (perform cfg) s) c ↔ other.Reaches s c := by
  induction awards generalizing s with
  | nil => exact Iff.rfl
  | cons award awards ih => exact (ih (s := perform cfg s award)).trans (perform_reaches award other)

theorem performs_unreached (h : ∀ award ∈ awards, ¬award.Reaches s c) :
    (awards.foldl (perform cfg) s).characters c = s.characters c := by
  induction awards generalizing s with
  | nil => rfl
  | cons award awards ih =>
      have hRest : ∀ later ∈ awards, ¬later.Reaches (perform cfg s award) c := by
        intro later hLater
        rw [perform_reaches]
        exact h later (List.mem_cons_of_mem _ hLater)
      exact (ih hRest).trans (perform_unreached award (h award List.mem_cons_self))

theorem performs_grown : Character.Grown cfg (s.characters c) ((awards.foldl (perform cfg) s).characters c) := by
  induction awards generalizing s with
  | nil => exact Character.Grown.refl
  | cons award awards ih => exact (perform_grown award).trans ih

end Performs

/-- The event gives the character experience. -/
def Rewarded (s : State) (event : Event) (c : PlayerId) : Prop :=
  ∃ award ∈ awards s event, award.Rewards s c

theorem Award.Rewards.reaches {s : State} {c : PlayerId} {award : Award} (h : award.Rewards s c) :
    award.Reaches s c := by
  cases award with
  | award c' reward => exact h.1
  | share p exp sharemode map => exact h
  | pool p exp => exact h
  | drain p sharemode map => exact h

/-- The last award that reaches a rewarded character suits it, as it is then. -/
def Suits (cfg : Config) (s : State) (event : Event) : Prop :=
  ∀ c, Rewarded s event c → ∀ before award after, awards s event = before ++ award :: after →
    award.Reaches s c → (∀ later ∈ after, ¬later.Reaches s c) → award.Fits cfg (before.foldl (perform cfg) s) c

/-- Points are always right. Levels are right where the awards suit. -/
theorem rewarded_agree_iff (cfg : Config) (s : State) (event : Event) :
    (∀ c, Rewarded s event c → ((step cfg s event).characters c).Agrees cfg ∧
      (s.characters c).Grown cfg ((step cfg s event).characters c)) ↔ Suits cfg s event := by
  have hSplit : ∀ c before award after, awards s event = before ++ award :: after → award.Reaches s c →
      (∀ later ∈ after, ¬later.Reaches s c) →
      (((step cfg s event).characters c).Agrees cfg ↔ award.Fits cfg (before.foldl (perform cfg) s) c) := by
    intro c before award after hAwards hReaches hAfter
    have hLast : (step cfg s event).characters c =
        (perform cfg (before.foldl (perform cfg) s) award).characters c := by
      unfold step
      rw [hAwards, List.foldl_append, List.foldl_cons]
      refine performs_unreached after fun later hLater => ?_
      rw [perform_reaches, performs_reaches]
      exact hAfter later hLater
    rw [hLast]
    exact perform_reached award ((performs_reaches before award).mpr hReaches)
  constructor
  · intro h c hRewarded before award after hAwards hReaches hAfter
    exact (hSplit c before award after hAwards hReaches hAfter).mp (h c hRewarded).1
  · intro h c hRewarded
    obtain ⟨award, hAward, hRewards⟩ := hRewarded
    obtain ⟨before, last, after, hAwards, hReaches, hAfter⟩ :=
      General.exists_last ⟨award, hAward, hRewards.reaches⟩
    refine ⟨(hSplit c before last after hAwards hReaches hAfter).mpr ?_, performs_grown _⟩
    exact h c ⟨award, hAward, hRewards⟩ before last after hAwards hReaches hAfter

section Duo

open General (double double_natCast)

/-- The table of the program, up to where it fits. -/
def cubes (level : Nat) : Int := (1331 * level ^ 3 + 5) / 10

theorem strictMono_cubes : StrictMono cubes := by
  refine strictMono_nat_of_lt_succ fun level => ?_
  have hCube : (level : Int) ^ 3 + 1 ≤ ((level + 1 : Nat) : Int) ^ 3 := by
    push_cast
    nlinarith [Int.natCast_nonneg level]
  unfold cubes
  omega

def standard : Config := ⟨2000000000, 250, 3, 4, cubes, strictMono_cubes⟩

theorem nodup_duo : [1, 2].Nodup := by
  decide

/-- Everybody is a beginner, and 1 and 2 are a party. -/
def beginners : State where
  characters _ := ⟨0, 0, 0, 0, 5, false, true, some 9⟩
  parties _ := ⟨[1, 2], nodup_duo, 0⟩

def bigCatch : Kill := ⟨1, 5, [1, 2], [⟨1, 40⟩], 40, 5000, 1, 2, 1⟩

theorem ceilInt_natCast {n : Nat} (h : n < 2 ^ 31) : ceilInt (n : Rat) = n := by
  unfold ceilInt
  rw [Int.ceil_natCast]
  exact if_pos ⟨by omega, by exact_mod_cast h⟩

theorem reward_bigCatch : bigCatch.reward ⟨1, 40⟩ = 5000 := by
  have hOne : double 1 = 1 := by exact_mod_cast double_natCast (n := 1) (by decide)
  have hAll : double 5000 = 5000 := by exact_mod_cast double_natCast (n := 5000) (by decide)
  show ceilInt (double (double (((5000 : Int) : Rat) * 1) * double (((40 : Int) : Rat) / ((40 : Int) : Rat)))) = 5000
  norm_num [hOne, hAll]
  exact ceilInt_natCast (n := 5000) (by decide)

/-- The reward is put by for the party, and shared when all characters have been seen to. -/
theorem awards_bigCatch : awards beginners (.killed bigCatch) = [.pool 9 5000, .award 1 none, .drain 9 1 5] := by
  have hAttacker : bigCatch.turn beginners 1 = [.pool 9 5000, .award 1 none] := by
    show (if (5000 : Int) = 0 then [] else if bigCatch.gets 1 ∧ 0 < bigCatch.reward ⟨1, 40⟩ then
      bigCatch.give (some 9) 1 (bigCatch.reward ⟨1, 40⟩) else [.award 1 none]) = _
    rw [reward_bigCatch]
    rfl
  have hTurns : bigCatch.characters.flatMap (bigCatch.turn beginners) = [.pool 9 5000, .award 1 none] := by
    show bigCatch.turn beginners 1 ++ (bigCatch.turn beginners 2 ++ []) = _
    rw [hAttacker]
    rfl
  show bigCatch.awards beginners = _
  unfold Kill.awards
  rw [hTurns]
  rfl

/-- A member that gets 2500 at level 0 is at level 1 after that. The experience is enough for level 2. -/
theorem duo_underlevelled : Rewarded beginners (.killed bigCatch) 2 ∧
    ¬((step standard beginners (.killed bigCatch)).characters 2).Agrees standard := by
  have hShares : (Award.drain 9 1 5).Reaches beginners 2 := ⟨by decide, by decide⟩
  refine ⟨⟨.drain 9 1 5, by rw [awards_bigCatch]; simp, hShares⟩, ?_⟩
  unfold step
  rw [awards_bigCatch]
  let between := [Award.pool 9 5000, .award 1 none].foldl (perform standard) beginners
  have hPortion : between.portionOf 9 5000 1 5 2 = 2500 := by
    have hHalf : double 2500 = 2500 := by exact_mod_cast double_natCast (n := 2500) (by decide)
    show ceilInt (double (((5000 : Int) : Rat) / (2 : Nat))) = 2500
    norm_num [hHalf]
    exact ceilInt_natCast (n := 2500) (by decide)
  show ¬((perform standard between (.drain 9 1 5)).characters 2).Agrees standard
  rw [perform_reached (.drain 9 1 5) ⟨by decide, by decide⟩]
  show ¬(between.characters 2).Fits standard (between.portionOf 9 5000 1 5 2)
  rw [hPortion]
  decide

end Duo

end Etheos.Experience
