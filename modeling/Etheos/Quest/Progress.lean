import Etheos.Character.World
import Etheos.General.SortedMap
import Mathlib.Data.Char
import Mathlib.Data.List.Lex
import Mathlib.Tactic.Ring

/-! The progress of a quest as text. Numbers are read digit by digit into a `short`,
and the sign is read as if it was a digit. -/
namespace Etheos.QuestStates

open Characters General

abbrev Text := List Char

/-- `util::to_string`. -/
def toText (n : Int) : Text :=
  if n < 0 then '-' :: Nat.toDigits 10 n.natAbs else Nat.toDigits 10 n.natAbs

abbrev Progress := SortedMap Text Int

def entryText (entry : Text × Int) : Text := entry.1 ++ '=' :: toText entry.2

def serializeProgress (progress : Progress) : Text :=
  '{' :: ([','].intercalate (progress.entries.map entryText) ++ ['}'])

/-- A `char` as a number. -/
def charCode (c : Char) : Int := Int.bmod c.toNat 256

/-- `value *= 10; value += *it - '0'`. -/
def readDigit (value : Int) (c : Char) : Int := toShort (toShort (value * 10) + (charCode c - 48))

/-- The loop of `UnserializeProgress`, where `reading` tells whether a value is read. -/
def readEntries (progress : Progress) (key : Text) (value : Int) (reading : Bool) : Text → Progress
  | [] => if reading then progress.put key value else progress
  | c :: rest =>
      if c = '}' then if reading then progress.put key value else progress
      else if reading then
        if c = ',' then readEntries (progress.put key value) [] 0 false rest
        else readEntries progress key (readDigit value c) true rest
      else if c = '=' then readEntries progress key value true rest
      else readEntries progress (key ++ [c]) value false rest

def unserializeProgress (progress : Progress) : Text → Progress
  | '{' :: rest => readEntries progress [] 0 false rest
  | _ => progress

/-- A number as it is read back. -/
def reread (n : Int) : Int := (toText n).foldl readDigit 0

section Numbers

theorem toShort_step (v : Int) (c : Char) :
    readDigit (toShort v) c = toShort (v * 10 + (charCode c - 48)) := by
  unfold readDigit toShort
  simp

theorem foldl_readDigit (text : Text) (v : Int) :
    text.foldl readDigit (toShort v) = toShort (text.foldl (fun v c => v * 10 + (charCode c - 48)) v) := by
  induction text generalizing v with
  | nil => rfl
  | cons c rest ih => rw [List.foldl_cons, List.foldl_cons, toShort_step, ih]

theorem charCode_digit {c : Char} (h : c.isDigit) : charCode c - 48 = (c.toNat - 48 : Nat) := by
  obtain ⟨hMin, hMax⟩ : 48 ≤ c.toNat ∧ c.toNat ≤ 57 := by
    simpa [Char.isDigit, UInt32.le_iff_toNat_le] using h
  have hSmall : charCode c = c.toNat := Int.bmod_eq_of_le (by omega) (by omega)
  omega

/-- The first digit counts most. -/
theorem ofDigitChars_cons_zero (c : Char) (rest : Text) :
    Nat.ofDigitChars 10 (c :: rest) 0 = 10 ^ rest.length * (c.toNat - 48) + Nat.ofDigitChars 10 rest 0 := by
  rw [Nat.ofDigitChars_cons, Nat.ofDigitChars_eq_ofDigitChars_zero, Nat.mul_zero, Nat.zero_add]
  rfl

theorem foldl_digits {text : Text} (h : ∀ c ∈ text, c.isDigit) (v : Int) :
    text.foldl (fun v c => v * 10 + (charCode c - 48)) v =
      v * 10 ^ text.length + (Nat.ofDigitChars 10 text 0 : Nat) := by
  induction text generalizing v with
  | nil => simp
  | cons c rest ih =>
      obtain ⟨hDigit, hRest⟩ := List.forall_mem_cons.mp h
      rw [List.foldl_cons, ih hRest, charCode_digit hDigit, ofDigitChars_cons_zero, List.length_cons, pow_succ]
      push_cast
      ring

theorem digits_isDigit (n : Nat) : ∀ c ∈ Nat.toDigits 10 n, c.isDigit := fun _ hc =>
  Nat.isDigit_of_mem_toDigits (by decide) (by decide) hc

theorem reread_of_nonneg {n : Int} (hn : 0 ≤ n) : reread n = toShort n := by
  have hZero : (0 : Int) = toShort 0 := rfl
  rw [reread, toText, if_neg (Int.not_lt.mpr hn), hZero, foldl_readDigit, foldl_digits (digits_isDigit _),
    Nat.ofDigitChars_ten_toDigits, Int.zero_mul, Int.zero_add, Int.natAbs_of_nonneg hn]

/-- The sign counts as -3. -/
theorem reread_of_neg {n : Int} (hn : n < 0) :
    reread n = toShort (-3 * 10 ^ (Nat.toDigits 10 n.natAbs).length - n) := by
  have hSign : readDigit 0 '-' = toShort (-3) := by decide
  have hAbs : (n.natAbs : Int) = -n := by omega
  rw [reread, toText, if_pos hn, List.foldl_cons, hSign, foldl_readDigit, foldl_digits (digits_isDigit _),
    Nat.ofDigitChars_ten_toDigits, hAbs, Int.sub_eq_add_neg]

theorem digits_length {n k : Nat} (hMin : 10 ^ k ≤ n) (hMax : n < 10 ^ (k + 1)) :
    (Nat.toDigits 10 n).length = k + 1 := by
  have hLe := (Nat.length_toDigits_le_iff (b := 10) (n := n) (k := k + 1) (by decide) (Nat.succ_pos k)).mpr hMax
  cases k with
  | zero =>
      have hPos := @Nat.length_toDigits_pos 10 n
      omega
  | succ k =>
      have hFewer := @Nat.length_toDigits_le_iff 10 n (k + 1) (by decide) (Nat.succ_pos k)
      have hNot := hFewer.not.mpr (Nat.not_lt.mpr hMin)
      omega

/-- Of the negative numbers only one is read back as it was. -/
theorem reread_eq_iff {n : Int} (hn : toShort n = n) : reread n = n ↔ 0 ≤ n ∨ n = -18928 := by
  by_cases hSign : 0 ≤ n
  · rw [reread_of_nonneg hSign, hn]
    exact iff_of_true rfl (.inl hSign)
  · have hNeg := Int.not_le.mp hSign
    have hRange : -32768 ≤ n := by
      unfold toShort at hn
      rw [Int.bmod_def] at hn
      omega
    rw [reread_of_neg hNeg]
    have hDigits : ∀ k, 10 ^ k ≤ n.natAbs → n.natAbs < 10 ^ (k + 1) → k + 1 ≤ 5 →
        (toShort (-3 * 10 ^ (Nat.toDigits 10 n.natAbs).length - n) = n ↔ 0 ≤ n ∨ n = -18928) := by
      intro k hMin hMax hk
      rw [digits_length hMin hMax]
      unfold toShort
      rw [Int.bmod_def]
      match k with
      | 0 => omega
      | 1 => omega
      | 2 => omega
      | 3 => omega
      | 4 => omega
    by_cases h1 : n.natAbs < 10 ^ 1
    · exact hDigits 0 (by omega) h1 (by decide)
    · by_cases h2 : n.natAbs < 10 ^ 2
      · exact hDigits 1 (by omega) h2 (by decide)
      · by_cases h3 : n.natAbs < 10 ^ 3
        · exact hDigits 2 (by omega) h3 (by decide)
        · by_cases h4 : n.natAbs < 10 ^ 4
          · exact hDigits 3 (by omega) h4 (by decide)
          · exact hDigits 4 (by omega) (by omega) (by decide)

end Numbers

section Entries

variable {progress : Progress} {key : Text} {value : Int} {rest : Text}

/-- A key ends the first `=`, and all entries the first closing brace. -/
def IsKey (key : Text) : Prop := ∀ c ∈ key, c ≠ '=' ∧ c ≠ '}'

theorem readEntries_key {text : Text} (h : IsKey text) :
    readEntries progress key value false (text ++ rest) =
      readEntries progress (key ++ text) value false rest := by
  induction text generalizing key with
  | nil => rw [List.nil_append, List.append_nil]
  | cons c text ih =>
      obtain ⟨⟨hEquals, hBrace⟩, hRest⟩ := List.forall_mem_cons.mp h
      rw [List.cons_append, readEntries, if_neg hBrace, if_neg Bool.false_ne_true, if_neg hEquals, ih hRest,
        List.append_assoc, List.singleton_append]

theorem readEntries_value {text : Text} (h : ∀ c ∈ text, c ≠ ',' ∧ c ≠ '}') :
    readEntries progress key value true (text ++ rest) =
      readEntries progress key (text.foldl readDigit value) true rest := by
  induction text generalizing value with
  | nil => rfl
  | cons c text ih =>
      obtain ⟨⟨hComma, hBrace⟩, hRest⟩ := List.forall_mem_cons.mp h
      rw [List.cons_append, readEntries, if_neg hBrace, if_pos rfl, if_neg hComma, ih hRest, List.foldl_cons]

theorem mem_toText {n : Int} {c : Char} (h : c ∈ toText n) : c.isDigit ∨ c = '-' := by
  unfold toText at h
  split at h
  · rcases List.mem_cons.mp h with rfl | hDigit
    · exact .inr rfl
    · exact .inl (digits_isDigit _ c hDigit)
  · exact .inl (digits_isDigit _ c h)

/-- Only digits and the sign are in a number. -/
theorem ne_of_mem_toText {n : Int} {c d : Char} (h : c ∈ toText n) (hd : d.isDigit = false ∧ d ≠ '-') :
    c ≠ d := by
  rintro rfl
  rcases mem_toText h with hDigit | hSign
  · rw [hd.1] at hDigit
    cases hDigit
  · exact hd.2 hSign

theorem readEntries_entry {entry : Text × Int} (h : IsKey entry.1) :
    readEntries progress [] 0 false (entryText entry ++ rest) =
      readEntries progress entry.1 (reread entry.2) true rest := by
  have hValue : ∀ c ∈ toText entry.2, c ≠ ',' ∧ c ≠ '}' := fun c hc =>
    ⟨ne_of_mem_toText hc (by decide), ne_of_mem_toText hc (by decide)⟩
  rw [entryText, List.append_assoc, readEntries_key h, List.nil_append, List.cons_append, readEntries,
    if_neg (by decide), if_neg Bool.false_ne_true, if_pos rfl, readEntries_value hValue]
  rfl

/-- The entries are put in one by one. -/
theorem readEntries_all (entries : List (Text × Int)) (h : ∀ e ∈ entries, IsKey e.1) :
    readEntries progress [] 0 false ([','].intercalate (entries.map entryText) ++ ['}']) =
      entries.foldl (fun progress e => progress.put e.1 (reread e.2)) progress := by
  induction entries generalizing progress with
  | nil => rfl
  | cons e rest ih =>
      obtain ⟨hKey, hRest⟩ := List.forall_mem_cons.mp h
      cases rest with
      | nil =>
          rw [List.map_singleton, List.intercalate_singleton, readEntries_entry hKey, readEntries, if_pos rfl,
            if_pos rfl]
          rfl
      | cons e' rest =>
          rw [List.map_cons, List.map_cons, List.intercalate_cons_cons, ← List.map_cons, List.append_assoc,
            List.append_assoc, readEntries_entry hKey, List.singleton_append, readEntries, if_neg (by decide),
            if_pos rfl, if_pos rfl, ih hRest]
          rfl

/-- Every number is read back in its own way. -/
theorem unserialize_serialize {progress : Progress} (h : ∀ e ∈ progress.entries, IsKey e.1) :
    unserializeProgress SortedMap.empty (serializeProgress progress) = progress.mapValues reread := by
  have hFold : progress.entries.foldl (fun p e => p.put e.1 (reread e.2)) SortedMap.empty =
      (progress.mapValues reread).entries.foldl (fun p e => p.put e.1 e.2) SortedMap.empty := by
    rw [SortedMap.mapValues, List.foldl_map]
    rfl
  refine SortedMap.ext_entries ?_
  change (readEntries _ _ _ _ _).entries = _
  rw [readEntries_all _ h, hFold, SortedMap.foldl_put _ _ (progress.mapValues reread).sorted]
  rfl

end Entries

/-- The number is read back as it was written. -/
def Restorable (n : Int) : Prop := 0 ≤ n ∨ n = -18928

instance (n : Int) : Decidable (Restorable n) := inferInstanceAs (Decidable (_ ∨ _))

/-- What the interpreter counts. -/
inductive Counter where
  | day | times | roll
  | usedItem (id : Int) | usedSpell (id : Int) | killedNPCs (id : Int) | killedPlayers
  deriving Repr, DecidableEq

def Counter.key : Counter → Text
  | .day => ['d']
  | .times => ['c']
  | .roll => ['r']
  | .usedItem id => "useditem/".toList ++ toText id
  | .usedSpell id => "usedspell/".toList ++ toText id
  | .killedNPCs id => "killednpcs/".toList ++ toText id
  | .killedPlayers => "killedplayers".toList

theorem toText_eq (n : Int) : toText n = (toString n).toList := by
  cases n with
  | ofNat m =>
      have hPos : ¬Int.ofNat m < 0 := Int.not_lt.mpr (Int.natCast_nonneg m)
      rw [toText, if_neg hPos]
      change Nat.toDigits 10 m = (Nat.repr m).toList
      simp [Nat.repr]
  | negSucc m =>
      rw [toText, if_pos (Int.negSucc_lt_zero m)]
      change '-' :: Nat.toDigits 10 (m + 1) = ("-" ++ Nat.repr (m + 1)).toList
      simp [Nat.repr]

theorem numbered_key (id : Int) {name start : String} (h : start = name ++ "/") :
    start.toList ++ toText id = (name ++ "/" ++ toString id).toList := by
  rw [String.toList_append, ← h, toText_eq]

/-- The keys under which the events of a quest are counted. -/
theorem Counter.key_counted (id : Int) :
    (usedItem id).key = ("useditem" ++ "/" ++ toString id).toList ∧
      (usedSpell id).key = ("usedspell" ++ "/" ++ toString id).toList ∧
        (killedNPCs id).key = ("killednpcs" ++ "/" ++ toString id).toList :=
  ⟨numbered_key id (by decide), numbered_key id (by decide), numbered_key id (by decide)⟩

/-- Progress that a quest can have. -/
structure IsProgress (progress : Progress) : Prop where
  keys : ∀ e ∈ progress.entries, ∃ counter : Counter, e.1 = counter.key
  values : ∀ e ∈ progress.entries, toShort e.2 = e.2

/-- No character in it means something in the text. -/
def IsPlain (text : Text) : Prop := ∀ c ∈ text, c ≠ '=' ∧ c ≠ '}' ∧ c ≠ ';'

instance (text : Text) : Decidable (IsPlain text) := List.decidableBAll _ text

theorem Counter.key_plain (counter : Counter) : IsPlain counter.key := by
  have hNumbered : ∀ (name : Text) (n : Int), IsPlain name → IsPlain (name ++ toText n) := fun name n hName =>
    List.forall_mem_append.mpr ⟨hName, fun c hc =>
      ⟨ne_of_mem_toText hc (by decide), ne_of_mem_toText hc (by decide), ne_of_mem_toText hc (by decide)⟩⟩
  cases counter with
  | day => decide
  | times => decide
  | roll => decide
  | usedItem id => exact hNumbered _ id (by decide)
  | usedSpell id => exact hNumbered _ id (by decide)
  | killedNPCs id => exact hNumbered _ id (by decide)
  | killedPlayers => decide

theorem IsProgress.isKey {progress : Progress} (h : IsProgress progress) :
    ∀ e ∈ progress.entries, IsKey e.1 := by
  intro e he c hc
  obtain ⟨counter, hKey⟩ := h.keys e he
  obtain ⟨hEquals, hBrace, -⟩ := counter.key_plain c (hKey ▸ hc)
  exact ⟨hEquals, hBrace⟩

theorem IsProgress.semicolon_not_mem {progress : Progress} (h : IsProgress progress) :
    ';' ∉ serializeProgress progress := by
  have hEntry : ∀ e ∈ progress.entries, ';' ∉ entryText e := by
    intro e he hMem
    obtain ⟨counter, hKey⟩ := h.keys e he
    rcases List.mem_append.mp hMem with hIn | hIn
    · exact (counter.key_plain ';' (hKey ▸ hIn)).2.2 rfl
    · rcases List.mem_cons.mp hIn with hEquals | hIn
      · cases hEquals
      · exact ne_of_mem_toText hIn (by decide) rfl
  have hEntries : ∀ entries : List (Text × Int), (∀ e ∈ entries, ';' ∉ entryText e) →
      ';' ∉ [','].intercalate (entries.map entryText) := by
    intro entries hAll
    induction entries with
    | nil => exact List.not_mem_nil
    | cons e rest ih =>
        obtain ⟨hFirst, hRest⟩ := List.forall_mem_cons.mp hAll
        cases rest with
        | nil => simpa using hFirst
        | cons e' rest =>
            have hLater := ih hRest
            simp only [List.map_cons] at hLater
            simp [hFirst, hLater]
  have hText := hEntries progress.entries hEntry
  unfold serializeProgress
  simp [hText]

/-- Progress that is read back entry by entry. -/
structure Writable (progress : Progress) : Prop where
  keys : ∀ e ∈ progress.entries, IsKey e.1
  values : ∀ e ∈ progress.entries, toShort e.2 = e.2

theorem IsProgress.writable {progress : Progress} (h : IsProgress progress) : Writable progress :=
  ⟨h.isKey, h.values⟩

section Writable

variable {progress : Progress} {key : Text} {value : Int}

theorem Writable.put (h : Writable progress) (hKey : IsKey key) (hValue : toShort value = value) :
    Writable (progress.put key value) := by
  have hBoth : ∀ e ∈ (progress.put key value).entries, IsKey e.1 ∧ toShort e.2 = e.2 := by
    intro e he
    rcases SortedMap.mem_put he with rfl | hOld
    · exact ⟨hKey, hValue⟩
    · exact ⟨h.keys e hOld, h.values e hOld⟩
  exact ⟨fun e he => (hBoth e he).1, fun e he => (hBoth e he).2⟩

theorem readEntries_writable (h : Writable progress) (hKey : IsKey key) (hValue : toShort value = value)
    (reading : Bool) (text : Text) : Writable (readEntries progress key value reading text) := by
  induction text generalizing progress key value reading with
  | nil =>
      unfold readEntries
      split
      · exact h.put hKey hValue
      · exact h
  | cons c rest ih =>
      unfold readEntries
      split
      case isTrue =>
        split
        · exact h.put hKey hValue
        · exact h
      case isFalse hBrace =>
        split
        case isTrue =>
          split
          · exact ih (h.put hKey hValue) (List.forall_mem_nil _) rfl false
          · exact ih h hKey (toShort_toShort _) true
        case isFalse =>
          split
          case isTrue => exact ih h hKey hValue true
          case isFalse hEquals =>
            refine ih h (List.forall_mem_append.mpr ⟨hKey, ?_⟩) hValue false
            exact List.forall_mem_singleton.mpr ⟨hEquals, hBrace⟩

/-- Whatever a text is, what is read from it can be written. -/
theorem unserializeProgress_writable (text : Text) : Writable (unserializeProgress SortedMap.empty text) := by
  have hEmpty : Writable SortedMap.empty := ⟨nofun, nofun⟩
  unfold unserializeProgress
  split
  · exact readEntries_writable hEmpty (List.forall_mem_nil _) rfl false _
  · exact hEmpty

end Writable

theorem mapValues_eq_iff {progress : Progress} {f : Int → Int} :
    progress.mapValues f = progress ↔ ∀ e ∈ progress.entries, f e.2 = e.2 := by
  constructor
  · intro h e he
    have hEntries : progress.entries.map (Prod.map id f) = progress.entries.map id := by
      rw [List.map_id]
      exact congrArg SortedMap.entries h
    exact congrArg Prod.snd (List.map_inj_left.mp hEntries e he)
  · intro h
    refine SortedMap.ext_entries ((List.map_congr_left fun e he => ?_).trans (List.map_id _))
    rw [Prod.map, h e he]
    rfl

/-- Progress survives as text exactly if all of its numbers do. -/
theorem roundTrip_iff {progress : Progress} (h : Writable progress) :
    unserializeProgress SortedMap.empty (serializeProgress progress) = progress ↔
      ∀ e ∈ progress.entries, Restorable e.2 := by
  rw [unserialize_serialize h.keys, mapValues_eq_iff]
  exact forall₂_congr fun e he => reread_eq_iff (h.values e he)

end Etheos.QuestStates
