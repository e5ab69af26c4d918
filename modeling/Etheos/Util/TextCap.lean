import Etheos.Guild.Texts

/-! Texts that are cut to a width. Where the text is too wide, the loop that goes back takes the
characters themselves, as signed numbers, from the width that it has counted. -/
namespace Etheos.Texts

open Guilds (sizes sizeOfChar)

/-- `util::text_width`. -/
def textWidth (text : Bytes) : Int := (text.map sizeOfChar).sum

/-- A `char`. -/
def signedChar (c : UInt8) : Int := Int.bmod c.toNat (2 ^ 8)

/-- `string[i]`. -/
def charAt (text : Bytes) (i : Nat) : Int := signedChar (text.getD i 0)

/-- The loop that goes back from the character at `i`. -/
def goBack (text : Bytes) (limit : Int) (length : Int) : Nat → Nat
  | 0 => 0
  | i + 1 => if limit < length then goBack text limit (length - charAt text (i + 1)) i else i + 1

/-- The loop of `text_cap` over what is left from `i` on. -/
def capFrom (text : Bytes) (width : Int) (elipses : Bytes) (length : Int) (i : Nat) : Bytes → Bytes
  | [] => text
  | c :: rest =>
      if width < length + sizeOfChar c then
        text.take (goBack text (width + textWidth elipses) (length + sizeOfChar c) i)
      else capFrom text width elipses (length + sizeOfChar c) (i + 1) rest

/-- `util::text_cap`. -/
def textCap (text : Bytes) (width : Int) (elipses : Bytes) : Bytes := capFrom text width elipses 0 0 text

/-- A text that fits is whole, and another one is cut at most one character earlier than it has to be. -/
structure Capped (text : Bytes) (width : Int) (capped : Bytes) : Prop where
  whole : textWidth text ≤ width → capped = text
  isPrefix : width < textWidth text → capped <+: text
  fits : width < textWidth text → textWidth capped ≤ width
  longest : width < textWidth text →
    ∀ front, front <+: text → textWidth front ≤ width → front.length ≤ capped.length + 1

/-- The character at hand is the first that does not fit. -/
structure Cut (text : Bytes) (width : Int) (front : Bytes) (c : UInt8) : Prop where
  isPrefix : front ++ [c] <+: text
  fits : textWidth front ≤ width
  tooWide : width < textWidth (front ++ [c])

/-- One turn of the loop goes back far enough. -/
def BacksOnce (text : Bytes) (width : Int) : Prop :=
  ∀ front c, Cut text width front c →
    front.length ≤ 1 ∨ textWidth (front ++ [c]) - width ≤ signedChar c

section Widths

variable {text : Bytes} {width : Int}

@[simp] theorem textWidth_nil : textWidth [] = 0 := rfl

@[simp] theorem textWidth_cons (c : UInt8) (text : Bytes) :
    textWidth (c :: text) = sizeOfChar c + textWidth text := by
  simp [textWidth]

@[simp] theorem textWidth_append (front rest : Bytes) :
    textWidth (front ++ rest) = textWidth front + textWidth rest := by
  simp [textWidth]

/-- The narrowest and the widest character. -/
theorem sizeOfChar_range (c : UInt8) : 0 ≤ sizeOfChar c ∧ sizeOfChar c ≤ 11 := by
  have hSizes : ∀ size ∈ sizes, 0 ≤ size ∧ size ≤ 11 := by decide +kernel
  have hLength : sizes.length = 256 := by decide +kernel
  have hInside : c.toNat < sizes.length := hLength ▸ c.toNat_lt
  rw [sizeOfChar, List.getD_eq_getElem?_getD, List.getElem?_eq_getElem hInside, Option.getD_some]
  exact hSizes _ (List.getElem_mem _)

theorem textWidth_nonneg (text : Bytes) : 0 ≤ textWidth text := by
  induction text with
  | nil => simp
  | cons c rest ih =>
      have hSize := sizeOfChar_range c
      rw [textWidth_cons]
      omega

theorem textWidth_mono {front : Bytes} (h : front <+: text) : textWidth front ≤ textWidth text := by
  obtain ⟨rest, rfl⟩ := h
  have hRest := textWidth_nonneg rest
  rw [textWidth_append]
  omega

/-- No longer text in front fits. -/
theorem Cut.length_le {front other : Bytes} {c : UInt8} (h : Cut text width front c) (hOther : other <+: text)
    (hFits : textWidth other ≤ width) : other.length ≤ front.length := by
  by_contra hLonger
  have hInside : front ++ [c] <+: other := List.prefix_of_prefix_length_le h.isPrefix hOther (by simp; omega)
  have hWider := textWidth_mono hInside
  have hTooWide := h.tooWide
  omega

theorem exists_cut (hWidth : 0 ≤ width) (hWide : width < textWidth text) : ∃ front c, Cut text width front c := by
  induction text using List.reverseRecOn with
  | nil =>
      rw [textWidth_nil] at hWide
      omega
  | append_singleton front c ih =>
      by_cases hFits : textWidth front ≤ width
      · exact ⟨front, c, List.prefix_rfl, hFits, hWide⟩
      · obtain ⟨earlier, d, hCut⟩ := ih (Int.not_le.mp hFits)
        exact ⟨earlier, d, hCut.isPrefix.trans (List.prefix_append front [c]), hCut.fits, hCut.tooWide⟩

end Widths

section Capping

variable {text : Bytes} {width : Int}

theorem goBack_le (text : Bytes) (limit length : Int) (i : Nat) : goBack text limit length i ≤ i := by
  induction i generalizing length with
  | zero => simp [goBack]
  | succ i ih =>
      rw [goBack]
      split
      · exact Nat.le_succ_of_le (ih _)
      · exact Nat.le_refl _

/-- The first turn is always made, and the second one goes too far. -/
theorem goBack_near_iff (text : Bytes) {limit length : Int} (hWide : limit < length) (i : Nat) :
    i ≤ goBack text limit length i + 1 ↔ i ≤ 1 ∨ length - charAt text i ≤ limit := by
  cases i with
  | zero => simp
  | succ i =>
      rw [goBack, if_pos hWide]
      cases i with
      | zero => simp
      | succ i =>
          rw [goBack]
          split
          case isTrue hAgain =>
            have hFar := goBack_le text limit
              (length - charAt text (i + 1 + 1) - charAt text (i + 1)) i
            omega
          case isFalse hEnough => omega

theorem capFrom_fits (text : Bytes) (elipses : Bytes) {rest : Bytes} {length : Int} {i : Nat}
    (h : length + textWidth rest ≤ width) : capFrom text width elipses length i rest = text := by
  induction rest generalizing length i with
  | nil => rfl
  | cons c rest ih =>
      have hRest := textWidth_nonneg rest
      rw [textWidth_cons] at h
      rw [capFrom, if_neg (by omega)]
      exact ih (by omega)

/-- The loop comes to the character that does not fit. -/
theorem capFrom_cut (text : Bytes) (elipses : Bytes) {front : Bytes} {c : UInt8} (rest : Bytes) {length : Int} {i : Nat}
    (hFits : length + textWidth front ≤ width) (hTooWide : width < length + textWidth (front ++ [c])) :
    capFrom text width elipses length i (front ++ c :: rest) =
      text.take (goBack text (width + textWidth elipses) (length + textWidth (front ++ [c])) (i + front.length)) := by
  induction front generalizing length i with
  | nil =>
      have hWidth : textWidth ([] ++ [c]) = sizeOfChar c := by simp
      rw [hWidth] at hTooWide ⊢
      rw [List.nil_append, capFrom, if_pos hTooWide]
      rfl
  | cons d front ih =>
      have hFront := textWidth_nonneg front
      rw [textWidth_cons] at hFits
      rw [List.cons_append, textWidth_cons] at hTooWide
      rw [List.cons_append, List.cons_append, textWidth_cons, capFrom, if_neg (by omega), ih (by omega) (by omega), List.length_cons]
      congr 2
      · omega
      · omega

theorem Cut.textCap_eq {front : Bytes} {c : UInt8} (h : Cut text width front c) :
    textCap text width [] = text.take (goBack text width (textWidth (front ++ [c])) front.length) := by
  obtain ⟨rest, rfl⟩ := h.isPrefix
  have hFits : 0 + textWidth front ≤ width := by simpa using h.fits
  have hTooWide : width < 0 + textWidth (front ++ [c]) := by simpa using h.tooWide
  have hRun := capFrom_cut (front ++ [c] ++ rest) [] rest (i := 0) hFits hTooWide
  simpa [textCap] using hRun

/-- The character in the text. -/
theorem Cut.charAt_eq {front : Bytes} {c : UInt8} (h : Cut text width front c) :
    charAt text front.length = signedChar c := by
  obtain ⟨rest, rfl⟩ := h.isPrefix
  have hHere : (front ++ [c] ++ rest)[front.length]? = some c := by simp
  rw [charAt, List.getD_eq_getElem?_getD, hHere, Option.getD_some]

theorem Cut.capped_iff {front : Bytes} {c : UInt8} (h : Cut text width front c) :
    Capped text width (textCap text width []) ↔
      front.length ≤ 1 ∨ textWidth (front ++ [c]) - width ≤ signedChar c := by
  have hTooWide := h.tooWide
  have hWide : width < textWidth text := hTooWide.trans_le (textWidth_mono h.isPrefix)
  have hFront : front <+: text := (List.prefix_append front [c]).trans h.isPrefix
  have hBack := goBack_le text width (textWidth (front ++ [c])) front.length
  have hNear := goBack_near_iff text hTooWide front.length
  have hLength : (textCap text width []).length = goBack text width (textWidth (front ++ [c])) front.length := by
    rw [h.textCap_eq, List.length_take]
    exact Nat.min_eq_left (hBack.trans hFront.length_le)
  rw [h.charAt_eq] at hNear
  constructor
  · intro hCapped
    have hLongest := hCapped.longest hWide front hFront h.fits
    rw [hLength] at hLongest
    have hOnce := hNear.mp hLongest
    omega
  · intro hOnce
    have hClose := hNear.mpr (by omega)
    have hInside : textCap text width [] <+: front := by
      apply List.prefix_of_prefix_length_le _ hFront (by omega)
      rw [h.textCap_eq]
      exact List.take_prefix _ _
    refine ⟨fun hFits => by omega, fun _ => hInside.trans hFront, fun _ => ?_, ?_⟩
    · exact (textWidth_mono hInside).trans h.fits
    · intro _ other hOther hOtherFits
      have hShorter := h.length_le hOther hOtherFits
      omega

/-- A text is cut as it should be exactly if one turn of the loop back is enough. -/
theorem textCap_capped_iff (text : Bytes) {width : Int} (hWidth : 0 ≤ width) :
    Capped text width (textCap text width []) ↔ BacksOnce text width := by
  constructor
  · exact fun hCapped front c hCut => hCut.capped_iff.mp hCapped
  · intro hOnce
    by_cases hWide : width < textWidth text
    · obtain ⟨front, c, hCut⟩ := exists_cut hWidth hWide
      exact hCut.capped_iff.mpr (hOnce front c hCut)
    · refine ⟨fun hFits => capFrom_fits text [] (by omega), ?_, ?_, ?_⟩ <;>
        exact fun hMore => absurd hMore hWide

/-- A letter is more than its own width. -/
theorem backsOnce_of_plain (hPlain : ∀ c ∈ text, 11 ≤ c.toNat ∧ c.toNat ≤ 127) : BacksOnce text width := by
  intro front c hCut
  obtain ⟨hMin, hMax⟩ := hPlain c (hCut.isPrefix.mem (by simp))
  have hSigned : signedChar c = c.toNat := Int.bmod_eq_of_le (by omega) (by omega)
  have hSize := sizeOfChar_range c
  have hFits := hCut.fits
  rw [textWidth_append, textWidth_cons, textWidth_nil, hSigned]
  omega

theorem textCap_capped_plain :
    Capped [97, 97, 98, 99] 13 (textCap [97, 97, 98, 99] 13 []) :=
  (textCap_capped_iff _ (by decide)).mpr (backsOnce_of_plain (by simp))

/-- Two letters fit, and the third one, an accented letter, takes both of them away. -/
theorem accented_counterexample :
    ¬∀ (text : Bytes) (width : Int), 0 ≤ width → Capped text width (textCap text width []) := by
  intro h
  have hLongest := (h [97, 97, 233] 13 (by decide)).longest (by decide) [97, 97] (by decide) (by decide)
  revert hLongest
  decide

end Capping

end Etheos.Texts
