import Etheos.Character.Character
import Etheos.Guild.Texts
import Etheos.Util.Variant

/-! What a character and a guild have as the texts they are saved in. -/
namespace Etheos.Codecs

open Characters QuestStates

/-- Two numbers of an entry. -/
def pairText (entry : Int × Int) : Text := toText entry.1 ++ ',' :: toText entry.2

/-- The loop of the unserializers that read two numbers of each part. A part without a comma
is passed over. -/
def readParts : List Text → Option (List (Int × Int))
  | [] => some []
  | part :: rest =>
      match cutFirst ',' part with
      | none => readParts rest
      | some (first, second) => do
          let a ← Variants.toInt first
          let b ← Variants.toInt second
          let entries ← readParts rest
          return (a, b) :: entries

section Pairs

theorem not_mem_toText {n : Int} {c : Char} (hc : c.isDigit = false ∧ c ≠ '-') : c ∉ toText n :=
  fun hMem => ne_of_mem_toText hMem hc rfl

theorem semicolon_not_mem (entry : Int × Int) : ';' ∉ pairText entry := by
  simp [pairText, not_mem_toText]

/-- The part behind the last separator is empty. -/
theorem readParts_pairTexts {entries : List (Int × Int)} (h : ∀ e ∈ entries, IsInt e.1 ∧ IsInt e.2) :
    readParts (entries.map pairText ++ [[]]) = some entries := by
  induction entries with
  | nil => rfl
  | cons e rest ih =>
      obtain ⟨⟨hFirst, hSecond⟩, hRest⟩ := List.forall_mem_cons.mp h
      have hCut : cutFirst ',' (pairText e) = some (toText e.1, toText e.2) :=
        cutFirst_append (not_mem_toText (by decide)) _
      rw [List.map_cons, List.cons_append, readParts, hCut]
      simp [Variants.toInt_toText hFirst, Variants.toInt_toText hSecond, ih hRest]

theorem readParts_splitOn {entries : List (Int × Int)} (h : ∀ e ∈ entries, IsInt e.1 ∧ IsInt e.2) :
    readParts ((entries.flatMap fun e => pairText e ++ [';']).splitOn ';') = some entries := by
  rw [splitOn_closed fun e _ => semicolon_not_mem e, readParts_pairTexts h]

end Pairs

def itemSerialize (items : List CharacterItem) : Text :=
  (items.map fun item => (item.id, item.amount)).flatMap fun entry => pairText entry ++ [';']

def itemUnserialize (serialized : Text) : Option (List CharacterItem) := do
  let entries ← readParts (serialized.splitOn ';')
  return CharacterItem.itemUnserialize (entries.map fun entry => CharacterItem.of entry.1 entry.2)

/-- A `Character_Spell`. -/
structure CharacterSpell where
  id : Int
  level : Int
  deriving DecidableEq

def spellSerialize (spells : List CharacterSpell) : Text :=
  (spells.map fun spell => (spell.id, spell.level)).flatMap fun entry => pairText entry ++ [';']

/-- The level is an `unsigned char`. -/
def spellUnserialize (serialized : Text) : Option (List CharacterSpell) := do
  let entries ← readParts (serialized.splitOn ';')
  return (entries.filter fun entry => ¬(entry.1 < 1 ∨ 65535 < entry.1 ∨ entry.2 < 0)).map fun entry =>
    ⟨toShort entry.1, entry.2 % 256⟩

abbrev Doll := Fin 15 → Int

def dollSerialize (doll : Doll) : Text := (List.ofFn doll).flatMap fun item => toText item ++ [',']

/-- The loop of `DollUnserialize`. It does not look at the size behind an invalid number, and a
number behind the last slot is written out of the array. -/
def readDoll (doll : Doll) (i : Nat) : List Text → Option Doll
  | [] => some doll
  | part :: rest => do
      let id ← Variants.toInt part
      if id < 0 ∨ 65535 < id then readDoll doll (i + 1) rest
      else if h : i < 15 then
        let doll := Function.update doll ⟨i, h⟩ id
        if i + 1 = 15 then return doll else readDoll doll (i + 1) rest
      else none

def dollUnserialize (serialized : Text) : Option Doll := readDoll (fun _ => 0) 0 (serialized.splitOn ',')

section RoundTrips

theorem toShort_small {n : Int} (hMin : 1 ≤ n) (hMax : n ≤ 32767) : toShort n = n :=
  Int.bmod_eq_of_le (by omega) (by omega)

theorem itemUnserialize_sound {items : List CharacterItem}
    (h : ∀ item ∈ items, 1 ≤ item.id ∧ item.id ≤ 32767 ∧ 1 ≤ item.amount) :
    CharacterItem.itemUnserialize items = items := by
  have hKept : items.filter (fun item => ¬(item.id < 1 ∨ 65535 < item.id ∨ item.amount < 1)) = items := by
    refine List.filter_eq_self.mpr fun item hItem => ?_
    obtain ⟨hMin, hMax, hAmount⟩ := h item hItem
    exact decide_eq_true (by omega)
  rw [CharacterItem.itemUnserialize, hKept]
  refine (List.map_congr_left fun item hItem => ?_).trans (List.map_id items)
  obtain ⟨hMin, hMax, -⟩ := h item hItem
  rw [toShort_small hMin hMax]
  rfl

theorem item_roundTrip {items : List CharacterItem}
    (h : ∀ item ∈ items, 1 ≤ item.id ∧ item.id ≤ 32767 ∧ 1 ≤ item.amount) :
    itemUnserialize (itemSerialize items) = some items := by
  have hInts : ∀ e ∈ items.map fun item => (item.id, item.amount), IsInt e.1 ∧ IsInt e.2 := by
    intro e he
    obtain ⟨item, hItem, rfl⟩ := List.mem_map.mp he
    obtain ⟨hMin, hMax, -⟩ := h item hItem
    exact ⟨⟨by dsimp only; omega, by dsimp only; omega⟩, item.isInt⟩
  have hParts : (items.map fun item => (item.id, item.amount)).map (fun e => CharacterItem.of e.1 e.2) =
      items := by
    rw [List.map_map]
    refine (List.map_congr_left fun item _ => ?_).trans (List.map_id items)
    simp [CharacterItem.of, item.isInt.toInt_eq]
  rw [itemUnserialize, itemSerialize, readParts_splitOn hInts]
  change some (CharacterItem.itemUnserialize _) = _
  rw [hParts, itemUnserialize_sound h]

theorem spell_roundTrip {spells : List CharacterSpell}
    (h : ∀ spell ∈ spells, 1 ≤ spell.id ∧ spell.id ≤ 32767 ∧ 0 ≤ spell.level ∧ spell.level ≤ 255) :
    spellUnserialize (spellSerialize spells) = some spells := by
  have hInts : ∀ e ∈ spells.map fun spell => (spell.id, spell.level), IsInt e.1 ∧ IsInt e.2 := by
    intro e he
    obtain ⟨spell, hSpell, rfl⟩ := List.mem_map.mp he
    have hRange := h spell hSpell
    exact ⟨⟨by dsimp only; omega, by dsimp only; omega⟩, ⟨by dsimp only; omega, by dsimp only; omega⟩⟩
  have hKept : (spells.map fun spell => (spell.id, spell.level)).filter
      (fun e => ¬(e.1 < 1 ∨ 65535 < e.1 ∨ e.2 < 0)) = spells.map fun spell => (spell.id, spell.level) := by
    refine List.filter_eq_self.mpr fun e he => ?_
    obtain ⟨spell, hSpell, rfl⟩ := List.mem_map.mp he
    have hRange := h spell hSpell
    exact decide_eq_true (by dsimp only; omega)
  rw [spellUnserialize, spellSerialize, readParts_splitOn hInts]
  change some (((spells.map fun spell => (spell.id, spell.level)).filter _).map _) = _
  rw [hKept, List.map_map]
  refine congrArg some ((List.map_congr_left fun spell hSpell => ?_).trans (List.map_id spells))
  obtain ⟨hMin, hMax, hLevel, hLevelMax⟩ := h spell hSpell
  have hByte : spell.level % 256 = spell.level := Int.emod_eq_of_lt hLevel (by omega)
  simp [toShort_small hMin hMax, hByte]

/-- The slots before `i` are read. -/
theorem readDoll_texts {doll read : Doll} (hDoll : ∀ slot, 0 ≤ doll slot ∧ doll slot ≤ 65535) {i : Nat}
    (hi : i < 15) (hRead : ∀ slot : Fin 15, slot < i → read slot = doll slot) (rest : List Text) :
    readDoll read i (((List.ofFn doll).drop i).map toText ++ rest) = some doll := by
  have hInt : IsInt (doll ⟨i, hi⟩) := by
    have hRange := hDoll ⟨i, hi⟩
    exact ⟨by omega, by omega⟩
  have hValid : ¬(doll ⟨i, hi⟩ < 0 ∨ 65535 < doll ⟨i, hi⟩) := by
    have hRange := hDoll ⟨i, hi⟩
    omega
  have hNext : ∀ slot : Fin 15, slot < i + 1 → Function.update read ⟨i, hi⟩ (doll ⟨i, hi⟩) slot = doll slot := by
    intro slot hSlot
    by_cases hSame : slot = ⟨i, hi⟩
    · rw [hSame, Function.update_self]
    · have hVal : slot.val ≠ i := fun hEq => hSame (Fin.ext hEq)
      rw [Function.update_of_ne hSame, hRead slot (by omega)]
  have hHead : (List.ofFn doll).drop i = doll ⟨i, hi⟩ :: (List.ofFn doll).drop (i + 1) := by
    rw [List.drop_eq_getElem_cons (by simpa using hi), List.getElem_ofFn]
  rw [hHead, List.map_cons, List.cons_append, readDoll, Variants.toInt_toText hInt]
  simp only [Option.bind_eq_bind, Option.bind_some, if_neg hValid, dif_pos hi]
  by_cases hLast : i + 1 = 15
  · rw [if_pos hLast]
    exact congrArg some (funext fun slot => hNext slot (by omega))
  · rw [if_neg hLast]
    exact readDoll_texts hDoll (by omega) hNext rest
termination_by 15 - i

theorem doll_roundTrip {doll : Doll} (h : ∀ slot, 0 ≤ doll slot ∧ doll slot ≤ 65535) :
    dollUnserialize (dollSerialize doll) = some doll := by
  have hClosed : ∀ id ∈ List.ofFn doll, ',' ∉ toText id := fun _ _ => not_mem_toText (by decide)
  rw [dollUnserialize, dollSerialize, splitOn_closed hClosed]
  exact readDoll_texts h (by decide) (fun slot hSlot => absurd hSlot (Nat.not_lt_zero _)) [[]]

end RoundTrips

/-- What is saved is read again. -/
theorem saved_texts_restore :
    (∀ items : List CharacterItem, (∀ item ∈ items, 1 ≤ item.id ∧ item.id ≤ 32767 ∧ 1 ≤ item.amount) →
      itemUnserialize (itemSerialize items) = some items) ∧
    (∀ spells : List CharacterSpell,
      (∀ spell ∈ spells, 1 ≤ spell.id ∧ spell.id ≤ 32767 ∧ 0 ≤ spell.level ∧ spell.level ≤ 255) →
      spellUnserialize (spellSerialize spells) = some spells) ∧
    (∀ doll : Doll, (∀ slot, 0 ≤ doll slot ∧ doll slot ≤ 65535) →
      dollUnserialize (dollSerialize doll) = some doll) ∧
    ∀ ranks : Guilds.Ranks, Guilds.Ranks.unserialize ranks.serialize = ranks :=
  ⟨fun _ => item_roundTrip, fun _ => spell_roundTrip, fun _ => doll_roundTrip,
    Guilds.Ranks.unserialize_serialize⟩

/-- The empty list, the largest values and names that are all empty. -/
theorem saved_texts_restore_largest :
    itemUnserialize (itemSerialize []) = some [] ∧
    spellUnserialize (spellSerialize [⟨32767, 255⟩, ⟨1, 0⟩]) = some [⟨32767, 255⟩, ⟨1, 0⟩] ∧
    dollUnserialize (dollSerialize fun _ => 65535) = some fun _ => 65535 :=
  ⟨saved_texts_restore.1 [] (by decide), saved_texts_restore.2.1 _ (by decide),
    saved_texts_restore.2.2.1 _ (by decide)⟩

end Etheos.Codecs
