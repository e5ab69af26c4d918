import Etheos.Character.Items
import Etheos.Packet.Builder
import Etheos.Util.TextCap

/-! Info boxes. The lines are broken into rows by filling each one up with spaces, and the width of a row is
kept in a number without a sign. -/
namespace Etheos.Texts

open Characters (IsInt isInt_toInt toInt)
open Characters.CharacterItem (toInt_add_toInt)

/-- `util::text_width` as the `int` that it is. -/
def intWidth (text : Bytes) : Int := toInt (textWidth text)

def infoboxWidth : UInt64 := 197

def spaceWidth : UInt64 := 3

/-- `chunk_width`, a `size_t`. -/
def chunkWidth (chunk : Bytes) : UInt64 := UInt64.ofInt (intWidth chunk)

/-- The pieces of a line. A piece ends with its space, and spaces at the start of a line or behind its first
word stay together. -/
def chunksFrom : List Bytes → Bytes → Bool → Bytes → List Bytes
  | chunks, chunk, _, [] =>
      let chunk := if chunks = [] ∧ chunk = [] then [32] else chunk
      if chunk = [] then chunks else chunks ++ [chunk]
  | chunks, chunk, leadingWhitespace, c :: rest =>
      if c = 32 then
        let leadingWhitespace := leadingWhitespace || chunks = []
        if leadingWhitespace then chunksFrom chunks (chunk ++ [c]) leadingWhitespace rest
        else if chunk = [] then chunksFrom chunks chunk leadingWhitespace rest
        else chunksFrom (chunks ++ [chunk ++ [c]]) [] leadingWhitespace rest
      else if leadingWhitespace then chunksFrom (chunks ++ [chunk]) [c] false rest
      else chunksFrom chunks (chunk ++ [c]) leadingWhitespace rest

def chunksOf (line : Bytes) : List Bytes := chunksFrom [] [] false line

structure InfoBox where
  content : Bytes
  contentLine : Bytes
  contentLineWidth : UInt64

namespace InfoBox

variable (box : InfoBox)

/-- `spaces`. The client ignores the first space in a line. -/
def spaces : Int :=
  let spaces := toInt ((infoboxWidth - box.contentLineWidth) / spaceWidth).toNat
  if box.contentLine.head? = some 32 then toInt (spaces + 1) else spaces

def addCurrentContentLine : InfoBox :=
  if box.contentLine = [] then box
  else ⟨box.content ++ box.contentLine ++ List.replicate box.spaces.toNat 32, [], 0⟩

def append (chunk : Bytes) : InfoBox :=
  { box with
    contentLine := box.contentLine ++ chunk
    contentLineWidth := box.contentLineWidth + chunkWidth chunk }

/-- `elipses` is `...`. -/
def addChunk (chunk : Bytes) : InfoBox :=
  if infoboxWidth < box.contentLineWidth + chunkWidth chunk then
    let box := box.addCurrentContentLine
    if infoboxWidth ≤ chunkWidth chunk then
      { box with content := box.content ++ textCap chunk infoboxWidth.toNat [46, 46, 46] }
    else box.append chunk
  else box.append chunk

def beginLine : InfoBox := { box with contentLine := [], contentLineWidth := 0 }

def addLine (line : Bytes) : InfoBox := ((chunksOf line).foldl addChunk box.beginLine).addCurrentContentLine

/-- The width has no value yet. -/
def start (garbage : UInt64) : InfoBox := ⟨[], [], garbage⟩

end InfoBox

def infoBoxContent (garbage : UInt64) (lines : List Bytes) : Bytes := (lines.foldl InfoBox.addLine (.start garbage)).content

/-- `Character::ShowInfoBox`. -/
def showInfoBox (garbage : UInt64) (title : Bytes) (lines : List Bytes) : PacketBuilder :=
  ((PacketBuilder.new 35 2).addBreakString title 255).addString (infoBoxContent garbage lines)

/-- The characters that are no spaces. -/
def visible (text : Bytes) : Bytes := text.filter (· ≠ 32)

/-- A chunk that is narrower than the box. -/
def Narrow (chunk : Bytes) : Prop := chunkWidth chunk < infoboxWidth

instance (chunk : Bytes) : Decidable (Narrow chunk) := inferInstanceAs (Decidable (_ < _))

/-- The width is that of the row, which fits. -/
structure LineFits (box : InfoBox) : Prop where
  width : (box.contentLineWidth.toNat : Int) = intWidth box.contentLine
  fits : box.contentLineWidth ≤ infoboxWidth

/-- The box in front of a chunk, or at the end of a line. A row is flushed in such a state only. -/
def Passes (garbage : UInt64) (lines : List Bytes) (box : InfoBox) : Prop :=
  ∃ front line rest done, lines = front ++ line :: rest ∧ done <+: chunksOf line ∧
    box = done.foldl InfoBox.addChunk (front.foldl InfoBox.addLine (.start garbage)).beginLine

section Chunks

@[simp] theorem visible_append (text more : Bytes) : visible (text ++ more) = visible text ++ visible more :=
  List.filter_append ..

@[simp] theorem visible_cons_space (text : Bytes) : visible (32 :: text) = visible text := rfl

theorem visible_spaces (n : Nat) : visible (List.replicate n 32) = [] := by
  simp [visible]

/-- Spaces are all that is lost. -/
theorem visible_chunksFrom (chunks : List Bytes) (chunk : Bytes) (leadingWhitespace : Bool) (rest : Bytes) :
    visible (chunksFrom chunks chunk leadingWhitespace rest).flatten = visible (chunks.flatten ++ chunk ++ rest) := by
  induction rest generalizing chunks chunk leadingWhitespace with
  | nil =>
      rw [chunksFrom]
      by_cases hChunk : chunk = []
      · by_cases hChunks : chunks = []
        · simp [hChunk, hChunks, visible]
        · simp [hChunk, hChunks]
      · simp [hChunk]
  | cons c rest ih =>
      rw [chunksFrom]
      dsimp only
      split
      case isTrue hSpace =>
        split
        · simp [ih]
        · split
          case isTrue hChunk => simp [ih, hChunk, hSpace]
          case isFalse => simp [ih]
      case isFalse =>
        split
        · simp [ih]
        · simp [ih]

theorem visible_chunksOf (line : Bytes) : visible (chunksOf line).flatten = visible line :=
  visible_chunksFrom [] [] false line

end Chunks

section Widths

variable {box : InfoBox} {chunk : Bytes}

theorem intWidth_append (text more : Bytes) : intWidth (text ++ more) = toInt (intWidth text + intWidth more) := by
  rw [intWidth, textWidth_append, intWidth, intWidth, toInt_add_toInt, Int.add_comm, Int.add_comm (toInt _),
    toInt_add_toInt]

/-- A sum that is no wider than the box has not run over, also where the chunk counts as less than nothing. -/
theorem toNat_add_of_le {w : UInt64} {n : Int} (hw : w ≤ infoboxWidth) (hn : IsInt n)
    (hFits : w + UInt64.ofInt n ≤ infoboxWidth) : ((w + UInt64.ofInt n).toNat : Int) = w.toNat + n := by
  have hLess : w.toNat ≤ 197 := UInt64.le_iff_toNat_le.mp hw
  have hSum : (w + UInt64.ofInt n).toNat ≤ 197 := UInt64.le_iff_toNat_le.mp hFits
  have hNumber : (UInt64.ofInt n).toNat = (n % 2 ^ 64).toNat % 2 ^ 64 := rfl
  obtain ⟨hMin, hMax⟩ := hn
  rw [UInt64.toNat_add, hNumber] at hSum ⊢
  omega

theorem lineFits_append (h : LineFits box) (hFits : box.contentLineWidth + chunkWidth chunk ≤ infoboxWidth) :
    LineFits (box.append chunk) := by
  have hSum := toNat_add_of_le h.fits (isInt_toInt (textWidth chunk)) hFits
  have hLess : (box.contentLineWidth + chunkWidth chunk).toNat ≤ 197 := UInt64.le_iff_toNat_le.mp hFits
  refine ⟨?_, hFits⟩
  show ((box.contentLineWidth + chunkWidth chunk).toNat : Int) = intWidth (box.contentLine ++ chunk)
  have hExact : ((box.contentLineWidth + chunkWidth chunk).toNat : Int) = intWidth box.contentLine + intWidth chunk := by
    rw [← h.width]
    exact hSum
  have hInt : IsInt (intWidth box.contentLine + intWidth chunk) := by
    rw [← hExact]
    exact ⟨by omega, by omega⟩
  rw [intWidth_append, hInt.toInt_eq, hExact]

theorem flush_width (h : LineFits box) : box.addCurrentContentLine.contentLineWidth = 0 := by
  rw [InfoBox.addCurrentContentLine]
  split
  case isTrue hEmpty =>
    have hWidth := h.width
    rw [hEmpty] at hWidth
    exact UInt64.toNat_inj.mp (Int.ofNat_inj.mp hWidth)
  case isFalse => rfl

theorem lineFits_flush (h : LineFits box) : LineFits box.addCurrentContentLine := by
  rw [InfoBox.addCurrentContentLine]
  split
  · exact h
  · exact ⟨rfl, show (0 : UInt64) ≤ infoboxWidth by decide⟩

/-- A chunk that is as wide as the box leaves the row empty, and any other one fits into a row of its own. -/
theorem lineFits_addChunk (h : LineFits box) (chunk : Bytes) : LineFits (box.addChunk chunk) := by
  have hFlush := lineFits_flush h
  rw [InfoBox.addChunk]
  split
  case isTrue =>
    dsimp only
    split
    case isTrue => exact ⟨hFlush.width, hFlush.fits⟩
    case isFalse hNarrow =>
      apply lineFits_append hFlush
      rw [flush_width h, UInt64.zero_add]
      exact UInt64.le_of_lt (UInt64.not_le.mp hNarrow)
  case isFalse hFits => exact lineFits_append h (UInt64.not_lt.mp hFits)

theorem lineFits_beginLine (box : InfoBox) : LineFits box.beginLine :=
  ⟨rfl, show (0 : UInt64) ≤ infoboxWidth by decide⟩

theorem lineFits_foldl (chunks : List Bytes) (h : LineFits box) : LineFits (chunks.foldl InfoBox.addChunk box) := by
  induction chunks generalizing box with
  | nil => exact h
  | cons chunk chunks ih => exact ih (lineFits_addChunk h chunk)

/-- The subtraction without a sign is the one of numbers. -/
theorem LineFits.spaces_eq (h : LineFits box) : box.spaces =
    (197 - intWidth box.contentLine) / 3 + if box.contentLine.head? = some 32 then 1 else 0 := by
  have hLess : box.contentLineWidth.toNat ≤ 197 := UInt64.le_iff_toNat_le.mp h.fits
  have hSpaces : ((infoboxWidth - box.contentLineWidth) / spaceWidth).toNat = (197 - box.contentLineWidth.toNat) / 3 := by
    rw [UInt64.toNat_div, UInt64.toNat_sub_of_le _ _ h.fits]
    rfl
  have hInt : toInt ((197 - box.contentLineWidth.toNat) / 3 : Nat) = ((197 - box.contentLineWidth.toNat) / 3 : Nat) :=
    IsInt.toInt_eq ⟨by omega, by omega⟩
  rw [InfoBox.spaces, hSpaces, hInt, ← h.width]
  split
  case isTrue =>
    rw [IsInt.toInt_eq ⟨by omega, by omega⟩]
    omega
  case isFalse => omega

end Widths

section Contents

variable {box : InfoBox} {chunk : Bytes}

/-- All that is there so far. -/
def InfoBox.shown (box : InfoBox) : Bytes := box.content ++ box.contentLine

theorem shown_flush (box : InfoBox) : visible box.addCurrentContentLine.shown = visible box.shown := by
  rw [InfoBox.addCurrentContentLine]
  split
  · rfl
  · simp [InfoBox.shown, visible_spaces]

theorem flush_contentLine (box : InfoBox) : box.addCurrentContentLine.contentLine = [] := by
  rw [InfoBox.addCurrentContentLine]
  split
  case isTrue hEmpty => exact hEmpty
  case isFalse => rfl

theorem shown_append (box : InfoBox) (chunk : Bytes) : (box.append chunk).shown = box.shown ++ chunk :=
  (List.append_assoc ..).symm

/-- What a chunk puts behind all that is there. -/
theorem shown_addChunk (box : InfoBox) (chunk : Bytes) : ∃ more, (Narrow chunk → more = chunk) ∧
    visible (box.addChunk chunk).shown = visible box.shown ++ visible more := by
  rw [InfoBox.addChunk]
  split
  case isTrue =>
    dsimp only
    split
    case isTrue hWide =>
      refine ⟨textCap chunk infoboxWidth.toNat [46, 46, 46], fun hNarrow => absurd hWide (UInt64.not_le.mpr hNarrow), ?_⟩
      have hFlush := shown_flush box
      rw [InfoBox.shown, flush_contentLine, List.append_nil] at hFlush ⊢
      rw [visible_append, hFlush]
    case isFalse =>
      refine ⟨chunk, fun _ => rfl, ?_⟩
      rw [shown_append, visible_append, shown_flush]
  case isFalse => exact ⟨chunk, fun _ => rfl, by rw [shown_append, visible_append]⟩

/-- The characters of the narrow chunks that are no spaces. -/
def narrowText (chunks : List Bytes) : Bytes := visible (chunks.filter (Narrow ·)).flatten

theorem narrowText_append (chunks more : List Bytes) : narrowText (chunks ++ more) = narrowText chunks ++ narrowText more := by
  simp [narrowText]

theorem shown_foldl (chunks : List Bytes) (box : InfoBox) : ∃ more, (narrowText chunks).Sublist more ∧
    visible (chunks.foldl InfoBox.addChunk box).shown = visible box.shown ++ more := by
  induction chunks generalizing box with
  | nil => exact ⟨[], List.Sublist.refl _, (List.append_nil _).symm⟩
  | cons chunk chunks ih =>
      obtain ⟨first, hFirst, hShown⟩ := shown_addChunk box chunk
      obtain ⟨more, hSub, hRest⟩ := ih (box.addChunk chunk)
      refine ⟨visible first ++ more, ?_, ?_⟩
      · rw [← List.singleton_append, narrowText_append]
        refine List.Sublist.append ?_ hSub
        by_cases hNarrow : Narrow chunk
        · rw [hFirst hNarrow]
          simp [narrowText, hNarrow]
        · simp [narrowText, hNarrow, visible]
      · rw [List.foldl_cons, hRest, hShown, List.append_assoc]

/-- At the end of a line all that is there has been put into the content. -/
theorem content_addLine (box : InfoBox) (line : Bytes) : ∃ more, (narrowText (chunksOf line)).Sublist more ∧
    visible (box.addLine line).content = visible box.content ++ more := by
  obtain ⟨more, hSub, hShown⟩ := shown_foldl (chunksOf line) box.beginLine
  refine ⟨more, hSub, ?_⟩
  have hFlush := shown_flush ((chunksOf line).foldl InfoBox.addChunk box.beginLine)
  rw [InfoBox.shown, flush_contentLine, List.append_nil, hShown, InfoBox.shown, InfoBox.beginLine, List.append_nil] at hFlush
  exact hFlush

theorem content_foldl (lines : List Bytes) (box : InfoBox) : ∃ more, (narrowText (lines.flatMap chunksOf)).Sublist more ∧
    visible (lines.foldl InfoBox.addLine box).content = visible box.content ++ more := by
  induction lines generalizing box with
  | nil => exact ⟨[], List.Sublist.refl _, (List.append_nil _).symm⟩
  | cons line lines ih =>
      obtain ⟨first, hFirst, hLine⟩ := content_addLine box line
      obtain ⟨more, hSub, hRest⟩ := ih (box.addLine line)
      refine ⟨first ++ more, ?_, ?_⟩
      · rw [List.flatMap_cons, narrowText_append]
        exact hFirst.append hSub
      · rw [List.foldl_cons, hRest, hLine, List.append_assoc]

/-- A row that is flushed fits into the box, the spaces behind it are as many as it leaves room for, and what
is narrower than the box is shown. -/
theorem infoBox_fits (garbage : UInt64) (lines : List Bytes) :
    (∀ box, Passes garbage lines box → LineFits box ∧ box.spaces =
      (197 - intWidth box.contentLine) / 3 + if box.contentLine.head? = some 32 then 1 else 0) ∧
    (narrowText (lines.flatMap chunksOf)).Sublist (infoBoxContent garbage lines) ∧
    ∀ line ∈ lines, visible (chunksOf line).flatten = visible line := by
  refine ⟨?_, ?_, fun line _ => visible_chunksOf line⟩
  · rintro box ⟨front, line, rest, done, -, -, rfl⟩
    have hFits := lineFits_foldl done (lineFits_beginLine (front.foldl InfoBox.addLine (.start garbage)))
    exact ⟨hFits, hFits.spaces_eq⟩
  · obtain ⟨more, hSub, hContent⟩ := content_foldl lines (.start garbage)
    have hVisible : visible (infoBoxContent garbage lines) = more := hContent
    exact (hVisible ▸ hSub).trans List.filter_sublist

/-- A space and a letter, and the row is flushed behind them. -/
theorem infoBox_fits_letter :
    LineFits ⟨[], [32, 97], 9⟩ ∧ (⟨[], [32, 97], 9⟩ : InfoBox).spaces =
      (197 - intWidth [32, 97]) / 3 + if ([32, 97] : Bytes).head? = some 32 then 1 else 0 :=
  (infoBox_fits 5 [[32, 97]]).1 ⟨[], [32, 97], 9⟩ ⟨[], [32, 97], [], chunksOf [32, 97], rfl, List.prefix_rfl, by rfl⟩

end Contents

end Etheos.Texts
