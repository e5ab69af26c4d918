import Etheos.Guild.Guild

/-! The texts of a guild: its description and the names of its ranks. -/
namespace Etheos.Guilds

open Login (lowercase)

/-- `sizes`, the width of every character. -/
def sizes : List Int :=
  [3, 3, 3, 3, 3, 3, 3, 3, 3, 3, 3, 3, 3, 3, 3, 3,
   3, 3, 3, 3, 3, 3, 3, 3, 3, 3, 3, 3, 3, 3, 3, 3,
   3, 3, 5, 7, 6, 8, 6, 2, 3, 3, 4, 6, 3, 3, 3, 5,
   6, 6, 6, 6, 6, 6, 6, 6, 6, 6, 3, 3, 6, 6, 6, 6,
   11, 7, 7, 7, 8, 7, 6, 8, 8, 3, 5, 7, 6, 9, 8, 8,
   7, 8, 8, 7, 7, 8, 7, 11, 7, 7, 7, 3, 5, 3, 6, 6,
   3, 6, 6, 6, 6, 6, 3, 6, 6, 2, 2, 6, 2, 8, 6, 6,
   6, 6, 3, 5, 3, 6, 6, 8, 5, 5, 5, 4, 2, 4, 7, 3,
   0, 0, 0, 0, 0, 0, 0, 0, 0, 0, 0, 0, 0, 0, 0, 0,
   0, 0, 0, 0, 0, 0, 0, 0, 0, 0, 0, 0, 0, 0, 0, 0,
   3, 3, 6, 6, 6, 6, 2, 6, 3, 9, 4, 6, 6, 3, 8, 6,
   4, 6, 3, 3, 3, 6, 6, 3, 3, 3, 4, 6, 8, 8, 8, 6,
   7, 7, 7, 7, 7, 7, 10, 7, 7, 7, 7, 7, 3, 3, 3, 3,
   8, 8, 8, 8, 8, 8, 8, 6, 8, 8, 8, 8, 8, 7, 7, 6,
   6, 6, 6, 6, 6, 6, 10, 6, 6, 6, 6, 6, 2, 4, 4, 4,
   6, 6, 6, 6, 6, 6, 6, 6, 6, 6, 6, 6, 6, 5, 6, 5]

def sizeOfChar (c : UInt8) : Int := sizes.getD c.toNat 0

/-- The loop of `text_word_wrap`, with the characters in front of it backwards. A space goes
in front of the last of them, and the character at hand is looked at once more. The first
character has none in front of it, and one that is too wide by itself is looked at forever. -/
def wrapFrom (width : Int) : Bytes → Int → Bytes → Option Bytes
  | done, _, [] => some done.reverse
  | done, length, c :: rest =>
      if c = 32 then wrapFrom width (c :: done) 0 rest
      else if length + sizeOfChar c ≤ width then wrapFrom width (c :: done) (length + sizeOfChar c) rest
      else
        match done with
        | [] => none
        | last :: front =>
            if sizeOfChar c ≤ width then wrapFrom width (c :: last :: 32 :: front) (sizeOfChar c) rest else none

/-- `util::text_word_wrap`. -/
def textWordWrap (text : Bytes) (width : Int) : Option Bytes := wrapFrom width [] 0 text

def validRank (guildMaxRankLength : Nat) (rank : Bytes) : Bool :=
  let rank := lowercase rank
  rank.length ≤ guildMaxRankLength && rank.all fun c => (97 ≤ c && c ≤ 122) || c = 32

/-- The nine names of the ranks. They are stored with a comma behind each. -/
structure Ranks where
  names : Fin 9 → Bytes
  noComma : ∀ i, 44 ∉ names i

/-- `RankSerialize`. -/
def Ranks.serialize (ranks : Ranks) : Bytes := (List.ofFn ranks.names).flatMap (· ++ [44])

/-- What stands in front of each comma. -/
def rankPieces : Bytes → Bytes → List Bytes
  | _, [] => []
  | piece, c :: rest => if c = 44 then piece :: rankPieces [] rest else rankPieces (piece ++ [c]) rest

/-- A comma is put behind the last name. -/
def closed (serialized : Bytes) : Bytes :=
  if serialized ≠ [] ∧ serialized.getLast? ≠ some 44 then serialized ++ [44] else serialized

theorem mem_rankPieces {piece text : Bytes} (hPiece : 44 ∉ piece) :
    ∀ name ∈ rankPieces piece text, 44 ∉ name := by
  induction text generalizing piece with
  | nil => exact nofun
  | cons c rest ih =>
      unfold rankPieces
      split
      · exact List.forall_mem_cons.mpr ⟨hPiece, ih List.not_mem_nil⟩
      case isFalse hComma =>
        refine ih fun hMem => ?_
        rcases List.mem_append.mp hMem with hOld | hNew
        · exact hPiece hOld
        · exact hComma (List.mem_singleton.mp hNew).symm

/-- `RankUnserialize`. Names that are missing are empty. -/
def Ranks.unserialize (serialized : Bytes) : Ranks where
  names i := (rankPieces [] (closed serialized)).getD i []
  noComma i := by
    rw [List.getD_eq_getElem?_getD]
    cases hName : (rankPieces [] (closed serialized))[(i : Nat)]? with
    | none => exact nofun
    | some name => exact mem_rankPieces List.not_mem_nil name (List.mem_of_getElem? hName)

theorem rankPieces_comma {name : Bytes} (hName : 44 ∉ name) (piece rest : Bytes) :
    rankPieces piece (name ++ 44 :: rest) = (piece ++ name) :: rankPieces [] rest := by
  induction name generalizing piece with
  | nil =>
      rw [List.nil_append, rankPieces, if_pos rfl, List.append_nil]
  | cons c name ih =>
      obtain ⟨hFirst, hRest⟩ : c ≠ 44 ∧ 44 ∉ name := by
        simpa [eq_comm] using hName
      rw [List.cons_append, rankPieces, if_neg hFirst, ih hRest, List.append_assoc, List.singleton_append]

theorem rankPieces_names {names : List Bytes} (hNames : ∀ name ∈ names, 44 ∉ name) :
    rankPieces [] (names.flatMap (· ++ [44])) = names := by
  induction names with
  | nil => rfl
  | cons name rest ih =>
      obtain ⟨hName, hRest⟩ := List.forall_mem_cons.mp hNames
      rw [List.flatMap_cons, List.append_assoc, List.singleton_append, rankPieces_comma hName, ih hRest,
        List.nil_append]

/-- The names that are stored are read again. -/
theorem Ranks.unserialize_serialize (ranks : Ranks) : unserialize ranks.serialize = ranks := by
  have hNames : ∀ name ∈ List.ofFn ranks.names, 44 ∉ name := by
    intro name hName
    obtain ⟨i, rfl⟩ := (List.mem_ofFn' _ _).mp hName
    exact ranks.noComma i
  have hClosed : closed ranks.serialize = ranks.serialize := by
    refine if_neg ?_
    rintro ⟨-, hLast⟩
    refine hLast ?_
    rw [serialize, List.ofFn_succ_last, List.flatMap_append, List.flatMap_singleton, ← List.append_assoc]
    exact List.getLast?_concat
  have hPieces := rankPieces_names hNames
  obtain ⟨names, hComma⟩ := ranks
  unfold unserialize
  congr 1
  funext i
  rw [hClosed, serialize, hPieces, List.getD_eq_getElem?_getD, List.getElem?_ofFn, dif_pos i.isLt]
  rfl

theorem validRank_noComma {guildMaxRankLength : Nat} {rank : Bytes}
    (h : validRank guildMaxRankLength rank = true) : 44 ∉ rank := by
  intro hMem
  have hAll := (Bool.and_eq_true _ _ ▸ h).2
  have hLower : (44 : UInt8) ∈ lowercase rank := List.mem_map.mpr ⟨44, hMem, by decide⟩
  have hComma := List.all_eq_true.mp hAll 44 hLower
  revert hComma
  decide

end Etheos.Guilds
