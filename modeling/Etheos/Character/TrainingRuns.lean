import Etheos.Character.Training
import Etheos.Character.VitalBounds
import Etheos.General.Run

/-! All points that a character has got with its levels are there: unspent, in its stats, or in its skills. -/
namespace Etheos.Trainings

open General
open Characters (toInt toShort)
open Codecs (CharacterSpell)
open Experience (PlayerId)

/-- The points of the highest level fit a `short`, and the levels of skills a byte. -/
structure Config.Sound (cfg : Config) : Prop where
  maxLevel : 0 ≤ cfg.experience.maxLevel ∧ cfg.experience.maxLevel ≤ 255
  statPerLevel : 0 ≤ cfg.experience.statPerLevel ∧ cfg.experience.maxLevel * cfg.experience.statPerLevel ≤ 32767
  skillPerLevel : 0 ≤ cfg.experience.skillPerLevel ∧ cfg.experience.maxLevel * cfg.experience.skillPerLevel ≤ 32767
  maxSkillLevel : 0 ≤ cfg.maxSkillLevel ∧ cfg.maxSkillLevel ≤ 255
  esfSize : cfg.esfSize ≤ 32768
  startSpells : (cfg.startSpells.map (·.id)).Nodup ∧ ∀ spell ∈ cfg.startSpells,
    0 < spell.id ∧ spell.id < cfg.esfSize ∧ 0 ≤ spell.level ∧ spell.level ≤ cfg.maxSkillLevel

def levelSum (spells : List CharacterSpell) : Int := (spells.map (·.level)).sum

namespace Skills

def statSum (skills : Skills) : Int :=
  skills.stats .str + skills.stats .intl + skills.stats .wis + skills.stats .agi + skills.stats .con +
    skills.stats .cha

/-- A spell is known once, is one of the list, and is not above `MaxSkillLevel`. -/
structure Proper (cfg : Config) (skills : Skills) : Prop where
  stats : ∀ stat, 0 ≤ skills.stats stat
  nodup : (skills.spells.map (·.id)).Nodup
  spells : ∀ spell ∈ skills.spells,
    0 < spell.id ∧ spell.id < cfg.esfSize ∧ 0 ≤ spell.level ∧ spell.level ≤ cfg.maxSkillLevel

end Skills

/-- The points of the levels are the ones that are left, and the ones that are spent. -/
structure Funded (cfg : Experience.Config) (stats skills : Int) (character : Experience.Character) : Prop where
  level : character.level ≤ cfg.maxLevel
  statpoints : 0 ≤ character.statpoints ∧ character.statpoints + stats = character.level * cfg.statPerLevel
  skillpoints : 0 ≤ character.skillpoints ∧ character.skillpoints + skills = character.level * cfg.skillPerLevel

section Experience

variable {cfg : Config} {stats skills : Int} {character : Experience.Character}

theorem Funded.withExp {cfg : Experience.Config} (h : Funded cfg stats skills character) (exp : Int) :
    Funded cfg stats skills { character with exp } :=
  ⟨h.level, h.statpoints, h.skillpoints⟩

theorem Funded.wander {cfg : Experience.Config} (h : Funded cfg stats skills character) {map : Nat}
    {nowhere canInteractCombat : Bool} {party : Option Experience.PartyId} :
    Funded cfg stats skills { character with map, nowhere, canInteractCombat, party } :=
  ⟨h.level, h.statpoints, h.skillpoints⟩

theorem toShort_of_range {n : Int} (hMin : 0 ≤ n) (hMax : n ≤ 32767) : toShort n = n :=
  Vitals.toShort_of_isShort ⟨by omega, by omega⟩

/-- The points of a level are within those of the last level. -/
theorem points_le {level perLevel maxLevel : Int} (hPer : 0 ≤ perLevel) (hLevel : level ≤ maxLevel)
    (hRoom : maxLevel * perLevel ≤ 32767) : level * perLevel ≤ 32767 :=
  le_trans (Int.mul_le_mul_of_nonneg_right hLevel hPer) hRoom

theorem Funded.levelUp (hCfg : cfg.Sound) (hStats : 0 ≤ stats) (hSkills : 0 ≤ skills)
    (h : Funded cfg.experience stats skills character) (hBelow : character.level < cfg.experience.maxLevel) :
    Funded cfg.experience stats skills (character.levelUp cfg.experience) := by
  obtain ⟨hStatPer, hStatRoom⟩ := hCfg.statPerLevel
  obtain ⟨hSkillPer, hSkillRoom⟩ := hCfg.skillPerLevel
  obtain ⟨hStat, hStatSum⟩ := h.statpoints
  obtain ⟨hSkill, hSkillSum⟩ := h.skillpoints
  have hNext : (character.level : Int) + 1 ≤ cfg.experience.maxLevel := hBelow
  have hStatMax := points_le hStatPer hNext hStatRoom
  have hSkillMax := points_le hSkillPer hNext hSkillRoom
  rw [Int.add_mul, Int.one_mul] at hStatMax hSkillMax
  have hStatFits : toShort (character.statpoints + cfg.experience.statPerLevel) =
      character.statpoints + cfg.experience.statPerLevel := toShort_of_range (by omega) (by omega)
  have hSkillFits : toShort (character.skillpoints + cfg.experience.skillPerLevel) =
      character.skillpoints + cfg.experience.skillPerLevel := toShort_of_range (by omega) (by omega)
  refine ⟨?_, ?_, ?_⟩
  · simpa only [Experience.Character.levelUp, Nat.cast_add, Nat.cast_one] using hNext
  · simp only [Experience.Character.levelUp, Nat.cast_add, Nat.cast_one, hStatFits, Int.add_mul, Int.one_mul]
    omega
  · simp only [Experience.Character.levelUp, Nat.cast_add, Nat.cast_one, hSkillFits, Int.add_mul, Int.one_mul]
    omega

/-- What new experience and new levels keep, awards keep. -/
structure Kept (cfg : Experience.Config) (P : Experience.Character → Prop) : Prop where
  exp : ∀ character exp, P character → P { character with exp }
  levelUp : ∀ character, P character → character.level < cfg.maxLevel → P (character.levelUp cfg)

section Awards

variable {cfg : Experience.Config} {P : Experience.Character → Prop} {s : Experience.State} {c : PlayerId}

theorem Kept.levels (hKept : Kept cfg P) (left : Nat) (h : P character) :
    P (Experience.Character.levels cfg left character) := by
  induction left generalizing character with
  | zero => exact h
  | succ left ih =>
      unfold Experience.Character.levels
      split
      next hRipe => exact ih (hKept.levelUp _ h hRipe.1)
      next => exact h

theorem Kept.award (hKept : Kept cfg P) (reward : Option Int) (h : P character) :
    P (character.award cfg reward) := by
  cases reward with
  | none => exact hKept.levels _ (hKept.exp _ _ h)
  | some reward => exact hKept.levels _ (hKept.exp _ _ (hKept.exp _ _ h))

theorem Kept.portion (hKept : Kept cfg P) (reward : Int) (h : P character) : P (character.portion cfg reward) := by
  have hEarned : P (character.earn reward) := hKept.exp _ _ h
  unfold Experience.Character.portion
  dsimp only
  split
  next hRipe => exact hKept.levelUp _ hEarned hRipe.1
  next => exact hEarned

theorem Kept.shareExp (hKept : Kept cfg P) (p : Experience.PartyId) (exp sharemode : Int) (map : Nat)
    (h : P (s.characters c)) : P ((s.shareExp cfg p exp sharemode map).characters c) := by
  rw [Experience.State.shareExp_characters]
  split
  · exact hKept.portion _ h
  · exact h

theorem Kept.perform (hKept : Kept cfg P) (award : Experience.Award) (h : P (s.characters c)) :
    P ((Experience.perform cfg s award).characters c) := by
  cases award with
  | award d reward =>
      show P ((s.update d fun character => character.award cfg reward).characters c)
      obtain rfl | hOther := eq_or_ne c d
      · rw [Experience.State.update_self]
        exact hKept.award reward h
      · rw [Experience.State.update_other hOther]
        exact h
  | share p exp sharemode map => exact hKept.shareExp p exp sharemode map h
  | pool p exp => exact h
  | drain p sharemode map => exact hKept.shareExp p _ sharemode map h

theorem Kept.step (hKept : Kept cfg P) (event : Experience.Event) (h : P (s.characters c)) :
    P ((Experience.step cfg s event).characters c) := by
  unfold Experience.step
  generalize Experience.awards s event = awards
  induction awards generalizing s with
  | nil => exact h
  | cons award awards ih => exact ih (hKept.perform award h)

end Awards

theorem Funded.kept (hCfg : cfg.Sound) (hStats : 0 ≤ stats) (hSkills : 0 ≤ skills) :
    Kept cfg.experience (Funded cfg.experience stats skills) where
  exp _ exp h := h.withExp exp
  levelUp _ h hBelow := h.levelUp hCfg hStats hSkills hBelow

end Experience

section Spells

variable {cfg : Config} {spells : List CharacterSpell} {id : Int}

theorem find_isSome : (spells.find? (·.id = id)).isSome ↔ id ∈ spells.map (·.id) := by
  simp [List.find?_isSome]

/-- A spell that is known once has its level for its own. -/
theorem levelSum_filter (hNodup : (spells.map (·.id)).Nodup) :
    levelSum (spells.filter (·.id ≠ id)) + ((spells.find? (·.id = id)).map (·.level)).getD 0 = levelSum spells := by
  induction spells with
  | nil => rfl
  | cons spell rest ih =>
      obtain ⟨hFirst, hRest⟩ := List.nodup_cons.mp hNodup
      by_cases hSame : spell.id = id
      · have hOthers : rest.filter (·.id ≠ id) = rest := by
          refine List.filter_eq_self.mpr fun other hOther => decide_eq_true fun hAgain => hFirst ?_
          exact List.mem_map.mpr ⟨other, hOther, hAgain.trans hSame.symm⟩
        rw [List.filter_cons_of_neg (by simp [hSame]), hOthers, List.find?_cons_of_pos (by simp [hSame])]
        exact Int.add_comm _ _
      · have hLater := ih hRest
        rw [List.filter_cons_of_pos (by simp [hSame]), List.find?_cons_of_neg (by simp [hSame])]
        simp only [levelSum, List.map_cons, List.sum_cons] at hLater ⊢
        omega

/-- What the loop of `StatSkill_Add` does to a spell. -/
def raise (id : Int) (spell : CharacterSpell) : CharacterSpell :=
  if spell.id = id then { spell with level := (spell.level + 1) % 256 } else spell

theorem raise_id (spell : CharacterSpell) : (raise id spell).id = spell.id := by
  unfold raise
  split <;> rfl

theorem map_raise_id : (spells.map (raise id)).map (·.id) = spells.map (·.id) := by
  rw [List.map_map]
  exact List.map_congr_left fun spell _ => raise_id spell

theorem trainSpells_absent (h : id ∉ spells.map (·.id)) (skillpoints : Int) :
    trainSpells id spells skillpoints = (spells, skillpoints) := by
  induction spells with
  | nil => rfl
  | cons spell rest ih =>
      obtain ⟨hFirst, hRest⟩ := not_or.mp (mt List.mem_cons.mpr h)
      rw [trainSpells, if_neg (Ne.symm hFirst), ih hRest]

theorem map_raise_absent (h : id ∉ spells.map (·.id)) : spells.map (raise id) = spells := by
  refine (List.map_congr_left fun spell hSpell => ?_).trans (List.map_id spells)
  exact if_neg fun hSame => h (List.mem_map.mpr ⟨spell, hSpell, hSame⟩)

/-- One spell is found, as spells are known once, and one point is paid. -/
theorem trainSpells_present (hNodup : (spells.map (·.id)).Nodup) (h : id ∈ spells.map (·.id)) (skillpoints : Int) :
    trainSpells id spells skillpoints = (spells.map (raise id), toShort (skillpoints - 1)) := by
  induction spells with
  | nil => exact absurd h List.not_mem_nil
  | cons spell rest ih =>
      obtain ⟨hFirst, hRest⟩ := List.nodup_cons.mp hNodup
      by_cases hSame : spell.id = id
      · have hLater : id ∉ rest.map (·.id) := hSame ▸ hFirst
        rw [trainSpells, if_pos hSame, trainSpells_absent hLater, List.map_cons, map_raise_absent hLater, raise,
          if_pos hSame]
      · have hLater : id ∈ rest.map (·.id) := (List.mem_cons.mp h).resolve_left (Ne.symm hSame)
        rw [trainSpells, if_neg hSame, ih hRest hLater, List.map_cons, raise, if_neg hSame]

theorem levelSum_raise (hNodup : (spells.map (·.id)).Nodup) (h : id ∈ spells.map (·.id))
    (hRoom : ∀ spell ∈ spells, spell.id = id → 0 ≤ spell.level ∧ spell.level < 255) :
    levelSum (spells.map (raise id)) = levelSum spells + 1 := by
  induction spells with
  | nil => exact absurd h List.not_mem_nil
  | cons spell rest ih =>
      obtain ⟨hFirst, hRest⟩ := List.nodup_cons.mp hNodup
      obtain ⟨hHere, hOthers⟩ := List.forall_mem_cons.mp hRoom
      by_cases hSame : spell.id = id
      · obtain ⟨hMin, hMax⟩ := hHere hSame
        have hByte : (spell.level + 1) % 256 = spell.level + 1 := Int.emod_eq_of_lt (by omega) (by omega)
        have hLater : id ∉ rest.map (·.id) := hSame ▸ hFirst
        simp only [levelSum, List.map_cons, List.sum_cons, map_raise_absent hLater, raise, if_pos hSame, hByte]
        omega
      · have hLater := ih hRest ((List.mem_cons.mp h).resolve_left (Ne.symm hSame)) hOthers
        simp only [levelSum, List.map_cons, List.sum_cons, raise, if_neg hSame] at hLater ⊢
        omega

end Spells

/-- `lost` are the points of the levels of spells that were forgotten, less the levels of the start spells. -/
structure Accounts (cfg : Config) (character : Experience.Character) (skills : Skills) (lost : Int) : Prop where
  funded : Funded cfg.experience skills.statSum (levelSum skills.spells + lost) character
  proper : skills.Proper cfg
  lost : -levelSum cfg.startSpells ≤ lost ∧ 0 ≤ levelSum skills.spells + lost

section Operations

variable {cfg : Config} {character : Experience.Character} {skills : Skills} {lost : Int}

theorem Skills.Proper.statSum_nonneg (h : skills.Proper cfg) (stat : Stat) :
    skills.stats stat ≤ skills.statSum ∧ 0 ≤ skills.statSum := by
  have hStr := h.stats .str
  have hIntl := h.stats .intl
  have hWis := h.stats .wis
  have hAgi := h.stats .agi
  have hCon := h.stats .con
  have hCha := h.stats .cha
  unfold Skills.statSum
  cases stat <;> omega

theorem Skills.find_spell {id : Int} {spell : CharacterSpell} (hFind : skills.spells.find? (·.id = id) = some spell) :
    spell ∈ skills.spells ∧ spell.id = id ∧ skills.spellLevel id = spell.level := by
  refine ⟨List.mem_of_find?_eq_some hFind, by simpa using List.find?_some hFind, ?_⟩
  rw [Skills.spellLevel, hFind]

theorem Accounts.talk (h : Accounts cfg character skills lost) (skillmaster : Bool) :
    Accounts cfg character { skills with skillmaster } lost :=
  ⟨h.funded, ⟨h.proper.stats, h.proper.nodup, h.proper.spells⟩, h.lost⟩

theorem Accounts.addSpell (hCfg : cfg.Sound) (h : Accounts cfg character skills lost) (spell : Int) :
    Accounts cfg character (skills.addSpell cfg spell) lost := by
  unfold Skills.addSpell
  split
  next => exact h
  next hValid =>
    split
    next => exact h
    next hNew =>
      obtain ⟨hMin, hMax⟩ := not_or.mp hValid
      have hSum : levelSum (skills.spells ++ [⟨spell, 0⟩]) = levelSum skills.spells := by simp [levelSum]
      have hAbsent : spell ∉ skills.spells.map (·.id) := fun hKnown => hNew (find_isSome.mpr hKnown)
      have hNodup : ((skills.spells ++ [(⟨spell, 0⟩ : CharacterSpell)]).map (·.id)).Nodup := by
        rw [List.map_append, List.nodup_append]
        refine ⟨h.proper.nodup, by simp, fun id hId other hOther hSame => hAbsent ?_⟩
        obtain rfl : other = spell := by simpa using hOther
        exact hSame ▸ hId
      refine ⟨?_, ⟨h.proper.stats, hNodup, fun other hOther => ?_⟩, ?_⟩
      · dsimp only
        rw [hSum]
        exact h.funded
      · obtain hOld | hLast := List.mem_append.mp hOther
        · exact h.proper.spells other hOld
        · obtain rfl := List.mem_singleton.mp hLast
          exact ⟨not_le.mp hMin, not_le.mp hMax, le_refl 0, hCfg.maxSkillLevel.1⟩
      · simpa only [hSum] using h.lost

/-- The points of a forgotten spell are lost. -/
theorem Accounts.delSpell (h : Accounts cfg character skills lost) (spell : Int) :
    0 ≤ skills.spellLevel spell ∧
      Accounts cfg character (skills.delSpell spell) (lost + skills.spellLevel spell) := by
  have hSum : levelSum (skills.delSpell spell).spells + skills.spellLevel spell = levelSum skills.spells := by
    refine Eq.trans (congrArg _ ?_) (levelSum_filter h.proper.nodup)
    unfold Skills.spellLevel
    cases skills.spells.find? (·.id = spell) <;> rfl
  have hLevel : 0 ≤ skills.spellLevel spell := by
    cases hFind : skills.spells.find? (·.id = spell) with
    | none => rw [Skills.spellLevel, hFind]
    | some known =>
        obtain ⟨hMem, -, hSame⟩ := Skills.find_spell hFind
        rw [hSame]
        exact (h.proper.spells known hMem).2.2.1
  have hPaid : levelSum (skills.delSpell spell).spells + (lost + skills.spellLevel spell) =
      levelSum skills.spells + lost := by omega
  refine ⟨hLevel, ⟨?_, ⟨h.proper.stats, ?_, fun other hOther => ?_⟩, ?_⟩⟩
  · rw [hPaid]
    exact h.funded
  · exact h.proper.nodup.sublist ((List.filter_sublist).map _)
  · exact h.proper.spells other (List.mem_of_mem_filter hOther)
  · obtain ⟨hLost, hSpent⟩ := h.lost
    exact ⟨by omega, by omega⟩

theorem statSum_update (stat : Stat) (n : Int) :
    ({ skills with stats := Function.update skills.stats stat n } : Skills).statSum =
      skills.statSum + n - skills.stats stat := by
  cases stat <;> simp [Skills.statSum, Function.update] <;> omega

theorem Accounts.trainStat (hCfg : cfg.Sound) (h : Accounts cfg character skills lost) (stat : Stat)
    (hPoints : 0 < character.statpoints) :
    Accounts cfg { character with statpoints := toShort (character.statpoints - 1) }
      { skills with stats := Function.update skills.stats stat (toShort (skills.stats stat + 1)) } lost := by
  obtain ⟨hLevel, ⟨hNonneg, hSum⟩, hSkill⟩ := h.funded
  obtain ⟨hStat, hStats⟩ := h.proper.statSum_nonneg stat
  obtain ⟨hPer, hRoom⟩ := hCfg.statPerLevel
  have hMax := points_le hPer hLevel hRoom
  have hStatMin := h.proper.stats stat
  have hLess : toShort (character.statpoints - 1) = character.statpoints - 1 :=
    toShort_of_range (by omega) (by omega)
  have hMore : toShort (skills.stats stat + 1) = skills.stats stat + 1 := toShort_of_range (by omega) (by omega)
  rw [hLess, hMore]
  refine ⟨⟨hLevel, ⟨?_, ?_⟩, hSkill⟩, ⟨fun other => ?_, h.proper.nodup, h.proper.spells⟩, h.lost⟩
  · dsimp only
    omega
  · rw [statSum_update]
    dsimp only
    omega
  · dsimp only
    obtain rfl | hOther := eq_or_ne other stat
    · rw [Function.update_self]
      omega
    · rw [Function.update_of_ne hOther]
      exact h.proper.stats other

/-- Below the highest level that a spell may have there is room for one more. -/
theorem Accounts.trainSkill (hCfg : cfg.Sound) (h : Accounts cfg character skills lost) {id : Int}
    (hPoints : 0 < character.skillpoints) (hBelow : skills.spellLevel (toShort id) < cfg.maxSkillLevel) :
    Accounts cfg { character with skillpoints := (trainSpells id skills.spells character.skillpoints).2 }
      { skills with spells := (trainSpells id skills.spells character.skillpoints).1 } lost := by
  by_cases hKnown : id ∈ skills.spells.map (·.id)
  · obtain ⟨known, hMem, hId⟩ := List.mem_map.mp hKnown
    obtain ⟨hMin, hMax, -, -⟩ := h.proper.spells known hMem
    have hSize := hCfg.esfSize
    have hShort : toShort id = id := toShort_of_range (by omega) (by omega)
    have hFind : (skills.spells.find? (·.id = id)).isSome := find_isSome.mpr hKnown
    obtain ⟨spell, hSpell⟩ := Option.isSome_iff_exists.mp hFind
    obtain ⟨hSpellMem, hSpellId, hSpellLevel⟩ := Skills.find_spell hSpell
    rw [hShort, hSpellLevel] at hBelow
    have hOnly : ∀ other ∈ skills.spells, other.id = id → other = spell := fun other hOther hSame =>
      List.inj_on_of_nodup_map h.proper.nodup hOther hSpellMem (hSame.trans hSpellId.symm)
    have hTop := hCfg.maxSkillLevel.2
    have hRange := h.proper.spells spell hSpellMem
    have hSum : levelSum (skills.spells.map (raise id)) = levelSum skills.spells + 1 := by
      refine levelSum_raise h.proper.nodup hKnown fun other hOther hSame => ?_
      obtain rfl := hOnly other hOther hSame
      exact ⟨by omega, by omega⟩
    obtain ⟨hLevel, hStat, ⟨hNonneg, hSkillSum⟩⟩ := h.funded
    obtain ⟨hPer, hRoom⟩ := hCfg.skillPerLevel
    have hPointsMax := points_le hPer hLevel hRoom
    obtain ⟨hLost, hSpent⟩ := h.lost
    have hLess : toShort (character.skillpoints - 1) = character.skillpoints - 1 :=
      toShort_of_range (by omega) (by omega)
    rw [trainSpells_present h.proper.nodup hKnown, hLess]
    refine ⟨⟨hLevel, hStat, ?_, ?_⟩, ⟨h.proper.stats, ?_, fun other hOther => ?_⟩, hLost, ?_⟩
    · dsimp only
      omega
    · dsimp only
      omega
    · rw [map_raise_id]
      exact h.proper.nodup
    · obtain ⟨before, hBefore, rfl⟩ := List.mem_map.mp hOther
      have hOld := h.proper.spells before hBefore
      unfold raise
      split
      next hSame =>
        obtain rfl := hOnly before hBefore hSame
        have hByte : (before.level + 1) % 256 = before.level + 1 := Int.emod_eq_of_lt (by omega) (by omega)
        dsimp only
        exact ⟨hOld.1, hOld.2.1, by omega, by omega⟩
      next => exact hOld
    · dsimp only
      omega
  · rw [trainSpells_absent hKnown]
    exact h

theorem Accounts.reset (hCfg : cfg.Sound) (h : Accounts cfg character skills lost) :
    Accounts cfg
      { character with
        statpoints := toShort (character.level * cfg.experience.statPerLevel)
        skillpoints := toShort (character.level * cfg.experience.skillPerLevel) }
      { skills with stats := fun _ => 0, spells := [] } 0 := by
  have hLevel := h.funded.level
  obtain ⟨hStatPer, hStatRoom⟩ := hCfg.statPerLevel
  obtain ⟨hSkillPer, hSkillRoom⟩ := hCfg.skillPerLevel
  have hStat : 0 ≤ character.level * cfg.experience.statPerLevel :=
    Int.mul_nonneg (Int.natCast_nonneg _) hStatPer
  have hSkill : 0 ≤ character.level * cfg.experience.skillPerLevel :=
    Int.mul_nonneg (Int.natCast_nonneg _) hSkillPer
  rw [toShort_of_range hStat (points_le hStatPer hLevel hStatRoom),
    toShort_of_range hSkill (points_le hSkillPer hLevel hSkillRoom)]
  refine ⟨⟨hLevel, ⟨hStat, ?_⟩, hSkill, ?_⟩, ⟨fun _ => le_refl 0, List.nodup_nil, ?_⟩, ?_, le_refl 0⟩
  · simp [Skills.statSum]
  · simp [levelSum]
  · simp
  · have hStart : 0 ≤ levelSum cfg.startSpells := by
      refine List.sum_nonneg fun level hLevel => ?_
      obtain ⟨spell, hSpell, rfl⟩ := List.mem_map.mp hLevel
      exact (hCfg.startSpells.2 spell hSpell).2.2.1
    omega

theorem Accounts.create (hCfg : cfg.Sound) (character : Experience.Character) :
    Accounts cfg { character with exp := 0, level := 0, statpoints := 0, skillpoints := 0 }
      ⟨fun _ => 0, cfg.startSpells, false⟩ (-levelSum cfg.startSpells) where
  funded := ⟨hCfg.maxLevel.1, by simp [Skills.statSum], by simp⟩
  proper := ⟨fun _ => le_refl 0, hCfg.startSpells.1, hCfg.startSpells.2⟩
  lost := ⟨le_refl _, by simp⟩

/-- What is saved is read again as it was. -/
theorem Accounts.reload (hCfg : cfg.Sound) (h : Accounts cfg character skills lost) :
    Codecs.spellUnserialize (Codecs.spellSerialize skills.spells) = some skills.spells ∧
      character.level % 256 = character.level ∧ toShort character.statpoints = character.statpoints ∧
      toShort character.skillpoints = character.skillpoints ∧
      ∀ stat, toShort (skills.stats stat) = skills.stats stat := by
  obtain ⟨hLevel, ⟨hStat, hStatSum⟩, ⟨hSkill, hSkillSum⟩⟩ := h.funded
  obtain ⟨hStatPer, hStatRoom⟩ := hCfg.statPerLevel
  obtain ⟨hSkillPer, hSkillRoom⟩ := hCfg.skillPerLevel
  have hStatMax := points_le hStatPer hLevel hStatRoom
  have hSkillMax := points_le hSkillPer hLevel hSkillRoom
  have hSpent := h.lost.2
  have hSize := hCfg.esfSize
  have hTop := hCfg.maxSkillLevel.2
  have hByte := hCfg.maxLevel.2
  have hStats := fun stat => h.proper.statSum_nonneg stat
  refine ⟨Codecs.spell_roundTrip fun spell hSpell => ?_, Nat.mod_eq_of_lt (by omega), ?_, ?_, fun stat => ?_⟩
  · obtain ⟨hMin, hMax, hLow, hHigh⟩ := h.proper.spells spell hSpell
    exact ⟨by omega, by omega, hLow, by omega⟩
  · have := (hStats .str).2
    exact toShort_of_range hStat (by omega)
  · exact toShort_of_range hSkill (by omega)
  · have := h.proper.stats stat
    have := (hStats stat).1
    exact toShort_of_range (by omega) (by omega)

end Operations

namespace State

variable {s : State} {c d : PlayerId} {character : Experience.Character} {skills : Skills}

theorem train_self : (s.train c character skills).character c = character ∧
    (s.train c character skills).skills c = skills :=
  ⟨Function.update_self .., Function.update_self ..⟩

theorem train_other (h : c ≠ d) : (s.train d character skills).character c = s.character c ∧
    (s.train d character skills).skills c = s.skills c :=
  ⟨Function.update_of_ne h .., Function.update_of_ne h ..⟩

/-- What holds of the new account of one, and of all old ones, holds of all. -/
theorem train_of {P : Experience.Character → Skills → Prop} (hSelf : c = d → P character skills)
    (hOther : P (s.character c) (s.skills c)) :
    P ((s.train d character skills).character c) ((s.train d character skills).skills c) := by
  obtain rfl | hNe := eq_or_ne c d
  · rw [train_self.1, train_self.2]
    exact hSelf rfl
  · rw [(train_other hNe).1, (train_other hNe).2]
    exact hOther

theorem setSkills_self : (s.setSkills c skills).skills c = skills := Function.update_self ..

theorem setSkills_of {P : Skills → Prop} (hSelf : c = d → P skills) (hOther : P (s.skills c)) :
    P ((s.setSkills d skills).skills c) := by
  obtain rfl | hNe := eq_or_ne c d
  · rw [setSkills_self]
    exact hSelf rfl
  · rw [show (s.setSkills d skills).skills c = s.skills c from Function.update_of_ne hNe ..]
    exact hOther

end State

/-- The character gives a spell up that it has paid levels of. -/
def Forgets (s : State) (c : PlayerId) : Event → Prop
  | .remove d spellId => d = c ∧ (s.skills d).skillmaster ∧ 0 < (s.skills d).spellLevel (toShort spellId)
  | _ => False

/-- The account goes on, or is a new one. -/
def Carries (cfg : Config) (lost after : Int) : Prop :=
  after = lost ∨ after = 0 ∨ after = -levelSum cfg.startSpells

/-- How much is lost after a step. -/
def Accounted (cfg : Config) (s : State) (c : PlayerId) (P : Int → Prop) : Prop :=
  ∃ lost, Accounts cfg (s.character c) (s.skills c) lost ∧ P lost

section Steps

variable {cfg : Config} {s : State} {c d : PlayerId} {lost : Int}

theorem Accounts.carried (h : Accounts cfg (s.character c) (s.skills c) lost) :
    Accounted cfg s c (Carries cfg lost) :=
  ⟨lost, h, .inl rfl⟩

theorem Accounts.train (h : Accounts cfg (s.character c) (s.skills c) lost) {character : Experience.Character}
    {skills : Skills} {after : Int} (hSelf : c = d → Accounts cfg character skills after ∧ Carries cfg lost after) :
    Accounted cfg (s.train d character skills) c (Carries cfg lost) :=
  State.train_of (P := fun character skills => ∃ lost', Accounts cfg character skills lost' ∧ Carries cfg lost lost')
    (fun hSame => ⟨after, hSelf hSame⟩) h.carried

theorem Accounts.setSkills (h : Accounts cfg (s.character c) (s.skills c) lost) {skills : Skills}
    (hSelf : c = d → Accounts cfg (s.character c) skills lost) :
    Accounted cfg (s.setSkills d skills) c (Carries cfg lost) :=
  State.setSkills_of (P := fun skills => ∃ lost', Accounts cfg (s.character c) skills lost' ∧ Carries cfg lost lost')
    (fun hSame => (⟨lost, hSelf hSame, .inl rfl⟩)) h.carried

theorem Accounts.statSkillAdd (hCfg : cfg.Sound) (h : Accounts cfg (s.character c) (s.skills c) lost)
    (action : TrainType) (statId : Int) :
    Accounted cfg (s.statSkillAdd cfg d action statId) c (Carries cfg lost) := by
  unfold State.statSkillAdd
  dsimp only
  cases action with
  | stat =>
      dsimp only
      split
      next => exact h.carried
      next hPoints =>
        cases statOf statId with
        | none => exact h.carried
        | some stat =>
            refine h.train fun hSame => ⟨?_, .inl rfl⟩
            subst hSame
            exact h.trainStat hCfg stat (not_le.mp hPoints)
  | skill =>
      dsimp only
      split
      next => exact h.carried
      next hMay =>
        obtain ⟨hPoints, hBelow⟩ := not_or.mp hMay
        refine h.train fun hSame => ⟨?_, .inl rfl⟩
        subst hSame
        exact h.trainSkill hCfg (not_le.mp hPoints) (not_le.mp (not_or.mp hBelow).2)

theorem Accounts.statSkillTake (hCfg : cfg.Sound) (h : Accounts cfg (s.character c) (s.skills c) lost) (spellId : Int)
    (taught : Bool) : Accounted cfg (s.statSkillTake cfg d spellId taught) c (Carries cfg lost) := by
  unfold State.statSkillTake
  dsimp only
  split
  next => exact h.carried
  next =>
    split
    next =>
      refine h.setSkills fun hSame => ?_
      subst hSame
      exact h.addSpell hCfg _
    next => exact h.carried

theorem Accounts.statSkillRemove (h : Accounts cfg (s.character c) (s.skills c) lost) {spellId : Int}
    (hKeeps : ¬Forgets s c (.remove d spellId)) :
    Accounted cfg (s.statSkillRemove d spellId) c (Carries cfg lost) := by
  unfold State.statSkillRemove
  dsimp only
  split
  next hMaster =>
    refine h.setSkills fun hSame => ?_
    subst hSame
    obtain ⟨hLevel, hRest⟩ := h.delSpell (toShort spellId)
    have hUnpaid : (s.skills c).spellLevel (toShort spellId) = 0 := by
      by_contra hPaid
      exact hKeeps ⟨rfl, hMaster, lt_of_le_of_ne hLevel (Ne.symm hPaid)⟩
    rwa [hUnpaid, Int.add_zero] at hRest
  next => exact h.carried

theorem Accounts.statSkillJunk (hCfg : cfg.Sound) (h : Accounts cfg (s.character c) (s.skills c) lost) :
    Accounted cfg (s.statSkillJunk cfg d) c (Carries cfg lost) := by
  unfold State.statSkillJunk
  split
  next =>
    refine h.train fun hSame => ⟨?_, .inr (.inl rfl)⟩
    subst hSame
    exact h.reset hCfg
  next => exact h.carried

theorem Accounts.reloaded (hCfg : cfg.Sound) (h : Accounts cfg (s.character c) (s.skills c) lost) :
    Accounted cfg (s.reload d) c (Carries cfg lost) := by
  unfold State.reload
  dsimp only
  obtain rfl | hNe := eq_or_ne c d
  · obtain ⟨hSpells, hLevel, hStat, hSkill, hStats⟩ := h.reload hCfg
    rw [hSpells]
    refine h.train fun _ => ⟨?_, .inl rfl⟩
    simp only [hLevel, hStat, hSkill, hStats]
    exact ⟨h.funded.withExp _, ⟨h.proper.stats, h.proper.nodup, h.proper.spells⟩, h.lost⟩
  · split
    next => exact h.carried
    next => exact h.train fun hSame => ⟨(absurd hSame hNe : Accounts cfg _ _ lost), .inl rfl⟩

theorem Accounts.handle (hCfg : cfg.Sound) (h : Accounts cfg (s.character c) (s.skills c) lost) {event : Event}
    (hKeeps : ¬Forgets s c event) : Accounted cfg (Trainings.handle cfg s event) c (Carries cfg lost) := by
  cases event with
  | create d => exact h.train fun _ => ⟨Accounts.create hCfg _, .inr (.inr rfl)⟩
  | reload d => exact h.reloaded hCfg
  | wander places parties => exact ⟨lost, ⟨h.funded.wander, h.proper, h.lost⟩, .inl rfl⟩
  | experience event =>
      have hStats := (h.proper.statSum_nonneg .str).2
      exact ⟨lost, ⟨(Funded.kept hCfg hStats h.lost.2).step event h.funded, h.proper, h.lost⟩, .inl rfl⟩
  | talk d skillmaster =>
      refine h.setSkills fun hSame => ?_
      subst hSame
      exact h.talk skillmaster
  | take d spellId taught => exact h.statSkillTake hCfg spellId taught
  | remove d spellId => exact h.statSkillRemove hKeeps
  | add d action statId => exact h.statSkillAdd hCfg action statId
  | junk d => exact h.statSkillJunk hCfg

/-- With a spell that is given up the points of its levels are lost. -/
theorem Accounts.forget (h : Accounts cfg (s.character c) (s.skills c) lost) {event : Event}
    (hForgets : Forgets s c event) : Accounted cfg (Trainings.handle cfg s event) c (lost < ·) := by
  cases event with
  | remove d spellId =>
      obtain ⟨rfl, hMaster, hLevel⟩ := hForgets
      refine ⟨lost + (s.skills d).spellLevel (toShort spellId), ?_, by omega⟩
      show Accounts cfg ((s.statSkillRemove d spellId).character d) ((s.statSkillRemove d spellId).skills d) _
      unfold State.statSkillRemove
      rw [if_pos hMaster, State.setSkills_self]
      exact (h.delSpell _).2
  | create d => exact absurd hForgets id
  | reload d => exact absurd hForgets id
  | wander places parties => exact absurd hForgets id
  | experience event => exact absurd hForgets id
  | talk d skillmaster => exact absurd hForgets id
  | take d spellId taught => exact absurd hForgets id
  | add d action statId => exact absurd hForgets id
  | junk d => exact absurd hForgets id

end Steps

/-- The characters are new. -/
def Fresh (cfg : Config) (s : State) : Prop :=
  ∀ c, (s.character c).level = 0 ∧ (s.character c).statpoints = 0 ∧ (s.character c).skillpoints = 0 ∧
    s.skills c = ⟨fun _ => 0, cfg.startSpells, false⟩

/-- No more is in the stats and in the skills than the levels and the start spells gave. -/
structure InOrder (cfg : Config) (s : State) (c : PlayerId) : Prop where
  level : (s.character c).level ≤ cfg.experience.maxLevel
  statpoints : 0 ≤ (s.character c).statpoints ∧
    (s.character c).statpoints + (s.skills c).statSum = (s.character c).level * cfg.experience.statPerLevel
  skillpoints : 0 ≤ (s.character c).skillpoints ∧
    (s.character c).skillpoints + levelSum (s.skills c).spells ≤
      (s.character c).level * cfg.experience.skillPerLevel + levelSum cfg.startSpells
  proper : (s.skills c).Proper cfg

/-- Nothing is missing either. -/
def Balanced (cfg : Config) (s : State) (c : PlayerId) : Prop :=
  (s.character c).skillpoints + levelSum (s.skills c).spells =
    (s.character c).level * cfg.experience.skillPerLevel

section Runs

variable {cfg : Config} {s : State} {c : PlayerId} {lost : Int}

theorem Accounts.of_fresh (hCfg : cfg.Sound) (h : Fresh cfg s) (c : PlayerId) :
    Accounts cfg (s.character c) (s.skills c) (-levelSum cfg.startSpells) := by
  obtain ⟨hLevel, hStat, hSkill, hSkills⟩ := h c
  have hNew := Accounts.create hCfg (s.character c)
  rw [hSkills]
  exact ⟨⟨by simpa [hLevel] using hCfg.maxLevel.1, by simp [hLevel, hStat, Skills.statSum],
    by simp [hLevel, hSkill]⟩, hNew.proper, hNew.lost⟩

theorem Accounts.inOrder (h : Accounts cfg (s.character c) (s.skills c) lost) : InOrder cfg s c := by
  obtain ⟨hSkill, hSum⟩ := h.funded.skillpoints
  have hLost := h.lost.1
  exact ⟨h.funded.level, h.funded.statpoints, ⟨hSkill, by omega⟩, h.proper⟩

theorem Accounts.balanced_iff (h : Accounts cfg (s.character c) (s.skills c) lost) : Balanced cfg s c ↔ lost = 0 := by
  obtain ⟨hSkill, hSum⟩ := h.funded.skillpoints
  unfold Balanced
  constructor
  · intro hBalanced
    omega
  · intro hLost
    omega

theorem points_accounted (hCfg : cfg.Sound) (hFresh : Fresh cfg s) (events : List Event) :
    Always (step cfg) (fun s => ∀ c, InOrder cfg s c) s events := by
  have hKeep : ∀ s event next, (∀ c, ∃ lost, Accounts cfg (s.character c) (s.skills c) lost) →
      step cfg s event = some next → ∀ c, ∃ lost, Accounts cfg (next.character c) (next.skills c) lost := by
    intro s event next hAll hStep c
    obtain rfl := Option.some.inj hStep
    obtain ⟨lost, hHere⟩ := hAll c
    by_cases hForgets : Forgets s c event
    · obtain ⟨after, hAfter, -⟩ := hHere.forget hForgets
      exact ⟨after, hAfter⟩
    · obtain ⟨after, hAfter, -⟩ := hHere.handle hCfg hForgets
      exact ⟨after, hAfter⟩
  refine (always_of_invariant hKeep (fun c => ⟨_, Accounts.of_fresh hCfg hFresh c⟩) events).mono fun s hAll c => ?_
  obtain ⟨lost, hHere⟩ := hAll c
  exact hHere.inOrder

/-- Three points for each level, of both kinds. -/
def school : Config where
  experience := ⟨10000, 250, 3, 3, fun n => 10 * n, fun a b h => by dsimp only; omega⟩
  maxSkillLevel := 100
  esfSize := 20
  startSpells := []

theorem sound_school : school.Sound :=
  ⟨by decide, by decide, by decide, by decide, by decide, by decide⟩

def pupils : State where
  state := ⟨fun _ => ⟨0, 0, 0, 0, 0, false, true, none⟩, fun _ => ⟨[], List.nodup_nil, 0⟩⟩
  skills := fun _ => ⟨fun _ => 0, [], false⟩

/-- Two levels, a stat and two levels of a skill. -/
def lessons : List Event :=
  [.experience (.giveexp 1 25), .talk 1 true, .take 1 3 true, .add 1 .stat 1, .add 1 .skill 3, .add 1 .skill 3,
    .reload 1]

/-- The character forgets the skill, and then all that it has learnt. -/
def oblivion : List Event := [.talk 1 true, .remove 1 3, .junk 1]

theorem points_accounted_school :
    Always (step school) (fun s => ∀ c, InOrder school s c) pupils (lessons ++ oblivion) ∧
      (run (step school) pupils lessons).map (fun s =>
        ((s.character 1).statpoints, (s.skills 1).stats .str, (s.character 1).skillpoints, (s.skills 1).spells)) =
        some (5, 1, 4, [⟨3, 2⟩]) ∧
      (run (step school) pupils (lessons ++ oblivion)).map (fun s =>
        ((s.character 1).statpoints, (s.character 1).skillpoints, (s.skills 1).spells)) = some (6, 6, []) :=
  ⟨points_accounted sound_school (fun _ => ⟨rfl, rfl, rfl, rfl⟩) _, by decide +kernel, by decide +kernel⟩

/-- Skill points get lost with the levels of a skill that is given up, and in no other way. -/
theorem points_kept_iff (hCfg : cfg.Sound) (hStart : levelSum cfg.startSpells = 0) (hFresh : Fresh cfg s)
    (events : List Event) :
    Always (step cfg) (fun s => ∀ c, Balanced cfg s c) s events ↔
      Avoids (step cfg) (fun s event => ∃ c, Forgets s c event) s events := by
  have hProperty : ∀ s : State, (∀ c, Accounts cfg (s.character c) (s.skills c) 0) → ∀ c, Balanced cfg s c :=
    fun s hAll c => (hAll c).balanced_iff.mpr rfl
  have hKeep : ∀ s event next, (∀ c, Accounts cfg (s.character c) (s.skills c) 0) → ¬(∃ c, Forgets s c event) →
      step cfg s event = some next → ∀ c, Accounts cfg (next.character c) (next.skills c) 0 := by
    intro s event next hAll hGood hStep c
    obtain rfl := Option.some.inj hStep
    obtain ⟨after, hAfter, hCarries⟩ := (hAll c).handle hCfg fun hForgets => hGood ⟨c, hForgets⟩
    have hZero : after = 0 := by
      unfold Carries at hCarries
      omega
    exact hZero ▸ hAfter
  have hBreak : ∀ s event next, (∀ c, Accounts cfg (s.character c) (s.skills c) 0) → (∃ c, Forgets s c event) →
      step cfg s event = some next → ¬∀ c, Balanced cfg next c := by
    rintro s event next hAll ⟨c, hForgets⟩ hStep hBalanced
    obtain rfl := Option.some.inj hStep
    obtain ⟨after, hAfter, hLess⟩ := (hAll c).forget hForgets
    exact absurd (hAfter.balanced_iff.mp (hBalanced c)) (ne_of_gt hLess)
  refine always_iff_avoids hProperty hKeep hBreak (fun c => ?_) events
  have hNew := Accounts.of_fresh hCfg hFresh c
  rwa [hStart] at hNew

/-- All is kept in the lessons, and not after them. -/
theorem points_kept_iff_school :
    Always (step school) (fun s => ∀ c, Balanced school s c) pupils lessons ∧
      ¬Always (step school) (fun s => ∀ c, Balanced school s c) pupils (lessons ++ oblivion) := by
  have hFresh : Fresh school pupils := fun _ => ⟨rfl, rfl, rfl, rfl⟩
  refine ⟨(points_kept_iff sound_school rfl hFresh lessons).mpr ?_,
    fun hAlways => (points_kept_iff sound_school rfl hFresh (lessons ++ oblivion)).mp hAlways
      (lessons ++ [.talk 1 true]) (.remove 1 3) _ ⟨[.junk 1], rfl⟩ rfl rfl ⟨1, rfl, ?_, ?_⟩⟩
  · refine avoids_of_forall fun event hEvent s => ?_
    rintro ⟨c, hForgets⟩
    simp only [lessons, List.mem_cons, List.not_mem_nil, or_false] at hEvent
    obtain rfl | rfl | rfl | rfl | rfl | rfl | rfl := hEvent <;> exact hForgets
  · decide +kernel
  · decide +kernel

end Runs

end Etheos.Trainings
