import Etheos.General.Segments
import Etheos.Util.TextCap

/-! Texts that are wrapped to a width. A space goes in front of the last character that still fits,
and that character is not counted for what comes behind the space. -/
namespace Etheos.Texts

open General.Segments
open Guilds (sizeOfChar wrapFrom textWordWrap)

/-- The second text is the first one with spaces put in. -/
inductive Spaced : Bytes → Bytes → Prop
  | nil : Spaced [] []
  | keep (c : UInt8) {text spaced : Bytes} : Spaced text spaced → Spaced (c :: text) (c :: spaced)
  | space {text spaced : Bytes} : Spaced text spaced → Spaced text (32 :: spaced)

structure Wrapped (width : Int) (text wrapped : Bytes) : Prop where
  narrow : ∀ segment ∈ wrapped.splitOn 32, textWidth segment ≤ width
  spaced : Spaced text wrapped
  again : textWordWrap wrapped width = some wrapped

/-- A word cut into blocks that are as long as they can be, the first of them begun with `block`. -/
def blocksFrom (width : Int) (block : Bytes) : Bytes → List Bytes
  | [] => [block]
  | c :: rest =>
      if textWidth (block ++ [c]) ≤ width then blocksFrom width (block ++ [c]) rest
      else block :: blocksFrom width [c] rest

/-- The last character of a block. -/
def lastOf (block : Bytes) : Bytes := block.getLast?.toList

/-- Each block has room for the last character of the one before it. It gives its own away, if
another one follows. -/
def Roomy (width : Int) : List Bytes → Prop
  | prev :: next :: rest =>
      textWidth (lastOf prev) + textWidth next ≤ width + (if rest = [] then 0 else textWidth (lastOf next)) ∧
        Roomy width (next :: rest)
  | _ => True

instance decidableRoomy (width : Int) : (blocks : List Bytes) → Decidable (Roomy width blocks)
  | [] => .isTrue trivial
  | [_] => .isTrue trivial
  | _ :: next :: rest =>
      have := decidableRoomy width (next :: rest)
      inferInstanceAs (Decidable (_ ∧ _))

/-- What is between the spaces, with `carry` in front of the first block. -/
def segmentsFrom (carry : Bytes) : List Bytes → List Bytes
  | block :: next :: rest => (carry ++ block.dropLast) :: segmentsFrom (lastOf block) (next :: rest)
  | [block] => [carry ++ block]
  | [] => [carry]

def wordSegments (width : Int) (word : Bytes) : List Bytes := segmentsFrom [] (blocksFrom width [] word)

section Turns

variable {width length : Int} {c : UInt8}

theorem wrapFrom_space (done rest : Bytes) :
    wrapFrom width done length (32 :: rest) = wrapFrom width (32 :: done) 0 rest := by
  cases done <;> simp [wrapFrom]

theorem wrapFrom_next (done : Bytes) {rest : Bytes} (hWord : c ≠ 32) (hFits : length + sizeOfChar c ≤ width) :
    wrapFrom width done length (c :: rest) = wrapFrom width (c :: done) (length + sizeOfChar c) rest := by
  cases done <;> simp [wrapFrom, hWord, hFits]

/-- The space goes in front of the last character. -/
theorem wrapFrom_over (last : UInt8) (front : Bytes) {rest : Bytes} (hWord : c ≠ 32)
    (hOver : ¬length + sizeOfChar c ≤ width) :
    wrapFrom width (last :: front) length (c :: rest) =
      if sizeOfChar c ≤ width then wrapFrom width (c :: last :: 32 :: front) (sizeOfChar c) rest else none := by
  simp [wrapFrom, hWord, hOver]

theorem wrapFrom_first {rest : Bytes} (hWord : c ≠ 32) (hOver : ¬length + sizeOfChar c ≤ width) :
    wrapFrom width [] length (c :: rest) = none := by
  simp [wrapFrom, hWord, hOver]

end Turns

section Spaces

variable {width : Int} {text spaced : Bytes}

theorem Spaced.append (h : Spaced text spaced) (c : UInt8) : Spaced (text ++ [c]) (spaced ++ [c]) := by
  induction h with
  | nil => exact .keep c .nil
  | keep d _ ih => exact .keep d ih
  | space _ ih => exact .space ih

/-- One more space. -/
theorem Spaced.put {front back : Bytes} (h : Spaced text (front ++ back)) : Spaced text (front ++ 32 :: back) := by
  induction front generalizing text with
  | nil => exact .space h
  | cons c front ih =>
      cases h with
      | keep _ h => exact .keep c (ih h)
      | space h => exact .space (ih h)

theorem wrapFrom_spaced {done : Bytes} {length : Int} {rest wrapped : Bytes} (h : Spaced text done.reverse)
    (hRun : wrapFrom width done length rest = some wrapped) : Spaced (text ++ rest) wrapped := by
  induction rest generalizing text done length with
  | nil =>
      rw [← Option.some.inj hRun, List.append_nil]
      exact h
  | cons c rest ih =>
      have hKeep : Spaced (text ++ [c]) (c :: done).reverse := by
        rw [List.reverse_cons]
        exact h.append c
      rw [← List.singleton_append, ← List.append_assoc]
      by_cases hWord : c = 32
      · subst hWord
        rw [wrapFrom_space] at hRun
        exact ih hKeep hRun
      · by_cases hFits : length + sizeOfChar c ≤ width
        · rw [wrapFrom_next done hWord hFits] at hRun
          exact ih hKeep hRun
        · cases done with
          | nil =>
              rw [wrapFrom_first hWord hFits] at hRun
              cases hRun
          | cons last front =>
              have hPut : Spaced text (front.reverse ++ 32 :: [last]) := by
                rw [List.reverse_cons] at h
                exact h.put
              have hNext : Spaced (text ++ [c]) (c :: last :: 32 :: front).reverse := by
                simpa using hPut.append c
              rw [wrapFrom_over last front hWord hFits] at hRun
              split at hRun
              · exact ih hNext hRun
              · cases hRun

end Spaces

section Blocks

variable {width : Int} {text : Bytes}

theorem blocksFrom_ne_nil (width : Int) (block word : Bytes) : blocksFrom width block word ≠ [] := by
  induction word generalizing block with
  | nil => simp [blocksFrom]
  | cons c rest ih =>
      rw [blocksFrom]
      split
      · exact ih _
      · simp

/-- A word that fits is one block. -/
theorem blocksFrom_fits {block word : Bytes} (h : textWidth (block ++ word) ≤ width) :
    blocksFrom width block word = [block ++ word] := by
  induction word generalizing block with
  | nil => rw [blocksFrom, List.append_nil]
  | cons c rest ih =>
      have hRest := textWidth_nonneg rest
      have hNext : textWidth (block ++ [c]) ≤ width := by
        simp only [textWidth_append, textWidth_cons, textWidth_nil] at h ⊢
        omega
      rw [← List.singleton_append, ← List.append_assoc] at h ⊢
      rw [List.singleton_append, blocksFrom, if_pos hNext, ih h]

/-- The blocks are what is there. -/
theorem flatten_blocksFrom (width : Int) (block word : Bytes) : (blocksFrom width block word).flatten = block ++ word := by
  induction word generalizing block with
  | nil => simp [blocksFrom]
  | cons c rest ih =>
      rw [blocksFrom]
      split
      · rw [ih, List.append_assoc, List.singleton_append]
      · rw [List.flatten_cons, ih, List.singleton_append]

theorem textWidth_head {block word first : Bytes} {others : List Bytes} (hBlock : textWidth block ≤ width)
    (h : blocksFrom width block word = first :: others) : textWidth first ≤ width := by
  induction word generalizing block with
  | nil =>
      rw [blocksFrom] at h
      rw [← (List.cons.inj h).1]
      exact hBlock
  | cons c rest ih =>
      rw [blocksFrom] at h
      split at h
      case isTrue hFits => exact ih hFits h
      case isFalse =>
        rw [← (List.cons.inj h).1]
        exact hBlock

theorem dropLast_lastOf (block : Bytes) : block.dropLast ++ lastOf block = block := by
  cases hLast : block.getLast? with
  | none => simp [lastOf, List.getLast?_eq_none_iff.mp hLast]
  | some last =>
      rw [lastOf, hLast]
      exact List.dropLast_append_getLast? last hLast

theorem textWidth_dropLast (block : Bytes) : textWidth block = textWidth block.dropLast + textWidth (lastOf block) := by
  rw [← textWidth_append, dropLast_lastOf]

theorem segmentsFrom_ne_nil (carry : Bytes) (blocks : List Bytes) : segmentsFrom carry blocks ≠ [] := by
  unfold segmentsFrom
  split <;> simp

theorem wordSegments_ne_nil (width : Int) (word : Bytes) : wordSegments width word ≠ [] := segmentsFrom_ne_nil _ _

/-- No character comes in. -/
theorem mem_segmentsFrom {carry segment : Bytes} {blocks : List Bytes} {c : UInt8}
    (hSegment : segment ∈ segmentsFrom carry blocks) (hMem : c ∈ segment) : c ∈ carry ++ blocks.flatten := by
  induction blocks generalizing carry with
  | nil =>
      rw [segmentsFrom, List.mem_singleton] at hSegment
      simpa [← hSegment] using hMem
  | cons block rest ih =>
      cases rest with
      | nil =>
          rw [segmentsFrom, List.mem_singleton] at hSegment
          simpa [← hSegment] using hMem
      | cons next rest =>
          rw [List.flatten_cons, ← dropLast_lastOf block]
          rcases List.mem_cons.mp hSegment with rfl | hLater
          · rcases List.mem_append.mp hMem with hCarry | hBlock
            · simp [hCarry]
            · simp [hBlock]
          · have hRest := ih hLater
            rw [List.mem_append] at hRest
            simp only [List.mem_append]
            tauto

/-- The segments fit exactly if there is room for what is carried over. -/
theorem segmentsFrom_fit_iff (carry block : Bytes) (rest : List Bytes) :
    (∀ segment ∈ segmentsFrom carry (block :: rest), textWidth segment ≤ width) ↔
      textWidth carry + textWidth block ≤ width + (if rest = [] then 0 else textWidth (lastOf block)) ∧
        Roomy width (block :: rest) := by
  induction rest generalizing carry block with
  | nil => simp [segmentsFrom, Roomy]
  | cons next rest ih =>
      have hBlock := textWidth_dropLast block
      rw [segmentsFrom, List.forall_mem_cons, ih, Roomy, if_neg (List.cons_ne_nil next rest), textWidth_append]
      apply and_congr_left'
      omega

theorem wordSegments_fit_iff (hWidth : 0 ≤ width) (word : Bytes) :
    (∀ segment ∈ wordSegments width word, textWidth segment ≤ width) ↔ Roomy width (blocksFrom width [] word) := by
  obtain ⟨first, others, hBlocks⟩ := List.exists_cons_of_ne_nil (blocksFrom_ne_nil width [] word)
  have hFirst := textWidth_head hWidth hBlocks
  have hLast := textWidth_nonneg (lastOf first)
  rw [wordSegments, hBlocks, segmentsFrom_fit_iff]
  apply and_iff_right
  split <;> simp <;> omega

end Blocks

section Wrapping

variable {width : Int} {text : Bytes}

/-- The loop over a word. What is done is `block`, which is counted, and in front of it what has been
carried over. -/
theorem wrapFrom_word (hWidth : 11 ≤ width) {word : Bytes} (hWord : 32 ∉ word) (front carry block rest : Bytes) :
    ∃ length, wrapFrom width (block.reverse ++ (carry.reverse ++ front)) (textWidth block) (word ++ rest) =
      wrapFrom width (([32].intercalate (segmentsFrom carry (blocksFrom width block word))).reverse ++ front)
        length rest := by
  induction word generalizing front carry block with
  | nil =>
      refine ⟨textWidth block, ?_⟩
      rw [blocksFrom, segmentsFrom, List.intercalate_singleton, List.reverse_append, List.append_assoc,
        List.nil_append]
  | cons c word ih =>
      obtain ⟨hFirst, hRest⟩ : c ≠ 32 ∧ 32 ∉ word := by simpa [eq_comm] using hWord
      have hSize := sizeOfChar_range c
      have hSum : textWidth (block ++ [c]) = textWidth block + sizeOfChar c := by simp
      rw [blocksFrom, hSum, List.cons_append]
      by_cases hFits : textWidth block + sizeOfChar c ≤ width
      · obtain ⟨length, hRun⟩ := ih hRest front carry (block ++ [c])
        refine ⟨length, ?_⟩
        rw [if_pos hFits, ← hRun, wrapFrom_next _ hFirst hFits, hSum, List.reverse_append]
        rfl
      · -- The block is not empty, since every character fits alone.
        obtain ⟨start, last, rfl⟩ : ∃ start last, block = start ++ [last] := by
          have hSome : block ≠ [] := by
            rintro rfl
            rw [textWidth_nil] at hFits
            omega
          exact ⟨block.dropLast, block.getLast hSome, (List.dropLast_append_getLast hSome).symm⟩
        obtain ⟨length, hRun⟩ := ih hRest (32 :: (start.reverse ++ (carry.reverse ++ front))) [last] [c]
        obtain ⟨next, others, hNext⟩ := List.exists_cons_of_ne_nil (blocksFrom_ne_nil width [c] word)
        refine ⟨length, ?_⟩
        have hLast : lastOf (start ++ [last]) = [last] := by simp [lastOf]
        have hOne : textWidth [c] = sizeOfChar c := by simp
        have hDone : (start ++ [last]).reverse ++ (carry.reverse ++ front) =
            last :: (start.reverse ++ (carry.reverse ++ front)) := by simp
        rw [hNext, hOne] at hRun
        rw [if_neg hFits, hNext, segmentsFrom, hLast, List.dropLast_concat,
          List.intercalate_cons_of_ne_nil (segmentsFrom_ne_nil _ _), hDone, wrapFrom_over _ _ hFirst hFits,
          if_pos (by omega)]
        simpa using hRun

/-- The text is wrapped word by word. -/
theorem wrapFrom_words (hWidth : 11 ≤ width) {words : List Bytes} (hWords : ∀ word ∈ words, 32 ∉ word)
    (hSome : words ≠ []) (front : Bytes) :
    wrapFrom width front 0 ([32].intercalate words) =
      some (front.reverse ++ [32].intercalate (words.flatMap (wordSegments width))) := by
  induction words generalizing front with
  | nil => exact absurd rfl hSome
  | cons word rest ih =>
      obtain ⟨hWord, hRest⟩ := List.forall_mem_cons.mp hWords
      cases rest with
      | nil =>
          obtain ⟨length, hRun⟩ := wrapFrom_word hWidth hWord front [] [] []
          rw [List.append_nil] at hRun
          rw [List.intercalate_singleton, List.flatMap_singleton]
          simpa [wrapFrom, wordSegments] using hRun
      | cons next rest =>
          obtain ⟨length, hRun⟩ := wrapFrom_word hWidth hWord front [] [] (32 :: [32].intercalate (next :: rest))
          have hOthers := ih hRest (List.cons_ne_nil next rest)
          have hNe : (next :: rest).flatMap (wordSegments width) ≠ [] := by
            simp [wordSegments_ne_nil]
          rw [wrapFrom_space, hOthers] at hRun
          rw [List.intercalate_cons_cons, List.append_assoc, List.singleton_append, List.flatMap_cons,
            intercalate_append (wordSegments_ne_nil width word) hNe]
          simpa [wordSegments] using hRun

theorem textWordWrap_eq (hWidth : 11 ≤ width) (text : Bytes) :
    textWordWrap text width = some ([32].intercalate ((text.splitOn 32).flatMap (wordSegments width))) := by
  have hRun := wrapFrom_words hWidth (fun _ => not_mem_of_mem_splitOn) (List.splitOn_ne_nil 32 text) []
  rw [List.intercalate_splitOn] at hRun
  exact hRun

theorem space_not_mem {segment : Bytes} (h : segment ∈ (text.splitOn 32).flatMap (wordSegments width)) :
    32 ∉ segment := by
  obtain ⟨word, hWord, hSegment⟩ := List.mem_flatMap.mp h
  intro hMem
  have hInside := mem_segmentsFrom hSegment hMem
  rw [List.nil_append, flatten_blocksFrom, List.nil_append] at hInside
  exact not_mem_of_mem_splitOn hWord hInside

theorem splitOn_wrapped (width : Int) (text : Bytes) :
    ([32].intercalate ((text.splitOn 32).flatMap (wordSegments width))).splitOn 32 =
      (text.splitOn 32).flatMap (wordSegments width) := by
  apply List.splitOn_intercalate 32 (fun _ => space_not_mem)
  obtain ⟨word, others, hWords⟩ := List.exists_cons_of_ne_nil (List.splitOn_ne_nil 32 text)
  simp [hWords, wordSegments_ne_nil]

/-- A text whose words fit stays as it is. -/
theorem textWordWrap_narrow (hWidth : 11 ≤ width) (h : ∀ word ∈ text.splitOn 32, textWidth word ≤ width) :
    textWordWrap text width = some text := by
  have hSame : (text.splitOn 32).flatMap (wordSegments width) = text.splitOn 32 := by
    calc (text.splitOn 32).flatMap (wordSegments width)
      _ = (text.splitOn 32).flatMap (fun word => [word]) := by
          apply List.flatMap_congr
          intro word hWord
          rw [wordSegments, blocksFrom_fits (h word hWord)]
          rfl
      _ = text.splitOn 32 := List.flatMap_singleton' _
  rw [textWordWrap_eq hWidth, hSame, List.intercalate_splitOn]

/-- A text is wrapped as it should be exactly if the blocks of its words have the room. -/
theorem textWordWrap_wrapped_iff (text : Bytes) (hWidth : 11 ≤ width) :
    (∃ wrapped, textWordWrap text width = some wrapped ∧ Wrapped width text wrapped) ↔
      ∀ word ∈ text.splitOn 32, Roomy width (blocksFrom width [] word) := by
  have hRun := textWordWrap_eq hWidth text
  have hSplit := splitOn_wrapped width text
  have hRoomy : (∀ segment ∈ (text.splitOn 32).flatMap (wordSegments width), textWidth segment ≤ width) ↔
      ∀ word ∈ text.splitOn 32, Roomy width (blocksFrom width [] word) := by
    rw [List.forall_mem_flatMap]
    exact forall₂_congr fun word _ => wordSegments_fit_iff (by omega) word
  rw [← hRoomy, ← hSplit]
  constructor
  · intro ⟨wrapped, hWrap, h⟩
    rw [hRun] at hWrap
    rw [Option.some.inj hWrap]
    exact h.narrow
  · intro hNarrow
    refine ⟨_, hRun, hNarrow, ?_, textWordWrap_narrow hWidth hNarrow⟩
    exact wrapFrom_spaced .nil hRun

/-- The second block of the word has the room for a character. -/
theorem textWordWrap_wrapped_odd :
    ∃ wrapped, textWordWrap [97, 97, 97, 32, 98] 12 = some wrapped ∧ Wrapped 12 [97, 97, 97, 32, 98] wrapped :=
  (textWordWrap_wrapped_iff [97, 97, 97, 32, 98] (by decide)).mpr (by decide)

/-- Two of the widest characters. Both come behind the space. -/
theorem widest_counterexample : ¬∀ (text : Bytes) (width : Int), 11 ≤ width →
    ∃ wrapped, textWordWrap text width = some wrapped ∧ Wrapped width text wrapped := by
  intro h
  obtain ⟨wrapped, hWrap, hWrapped⟩ := h [64, 64] 11 (by decide)
  have hResult : textWordWrap [64, 64] 11 = some [32, 64, 64] := by decide
  rw [hResult] at hWrap
  have hNarrow := (Option.some.inj hWrap ▸ hWrapped).narrow [64, 64] (by decide)
  revert hNarrow
  decide

end Wrapping

end Etheos.Texts
