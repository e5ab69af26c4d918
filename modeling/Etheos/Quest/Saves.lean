import Etheos.Quest.Context
import Etheos.Quest.Progress
import Mathlib.Data.Rat.Defs
import Mathlib.Algebra.Order.Ring.Rat
import Mathlib.Tactic.FieldSimp

/-! The quests of a character as text, and back. A quest that is not there or whose state is
unknown is kept as it was written. -/
namespace Etheos.QuestStates

open Characters EOPlus General

/-- What the loop of `tdparse` knows. Numbers are exact here. -/
structure Parsing where
  ret : ℚ
  val : ℚ
  decimal : Bool
  decimalmulti : ℚ
  negate : Bool
  skip : Bool

/-- `period_names` and `period_mul`. -/
def periodMul : Char → Option ℚ
  | 's' => some 1
  | 'm' => some 60
  | '%' => some 100
  | 'k' => some 1000
  | 'h' => some 3600
  | 'd' => some 86400
  | _ => none

namespace Parsing

def start : Parsing := ⟨0, 0, false, 1 / 10, false, false⟩

/-- A period ends the number before it. -/
def period (s : Parsing) (amount : ℚ) (skip : Bool) : Parsing :=
  ⟨s.ret + amount, 0, false, 1 / 10, s.negate, skip⟩

def digit (s : Parsing) (d : ℚ) : Parsing :=
  if s.decimal then { s with val := s.val + d * s.decimalmulti, decimalmulti := s.decimalmulti / 10 }
  else { s with val := s.val * 10 + d }

/-- One character, with the one behind it. -/
def next (s : Parsing) (c : Char) (behind : Option Char) : Parsing :=
  if s.skip then { s with skip := false }
  else if c = '-' then { s with negate := true }
  else
    let c := c.toLower
    match periodMul c with
    | some mul =>
        if c = 'm' ∧ behind = some 's' then s.period (s.val / 1000) true
        else if c = '%' then s.period (s.val / mul) false
        else s.period (s.val * mul) false
    | none =>
        if c.isDigit then s.digit (c.toNat - 48 : Nat)
        else if c = '.' then { s with decimal := true, decimalmulti := 1 / 10 }
        else s

def run (s : Parsing) : Text → Parsing
  | [] => s
  | c :: rest => (s.next c rest.head?).run rest

def value (s : Parsing) : ℚ := (s.ret + s.val) * if s.negate then -1 else 1

end Parsing

def tdparse (text : Text) : ℚ := (Parsing.start.run text).value

/-- `util::to_int`. -/
def ofText (text : Text) : Int := (tdparse text).num.tdiv (tdparse text).den

section Numbers

/-- A digit is neither a sign nor a period. -/
theorem digit_plain {c : Char} (hDigit : c.isDigit) : c ≠ '-' ∧ c.toLower = c ∧ periodMul c = none := by
  have hSign : c ≠ '-' := by
    rintro rfl
    cases hDigit
  have hLower : c.toLower = c := by
    have hRange : 48 ≤ c.toNat ∧ c.toNat ≤ 57 := by
      simpa [Char.isDigit, UInt32.le_iff_toNat_le] using hDigit
    refine dif_neg fun hUpper => ?_
    have hLetter : 65 ≤ c.toNat := by
      simpa [UInt32.le_iff_toNat_le] using hUpper.1
    omega
  have hPeriod : periodMul c = none := by
    unfold periodMul
    split
    case h_7 => rfl
    all_goals cases hDigit
  exact ⟨hSign, hLower, hPeriod⟩

theorem next_digit {s : Parsing} {c : Char} (hDigit : c.isDigit) (hSkip : s.skip = false)
    (hDecimal : s.decimal = false) (behind : Option Char) :
    s.next c behind = { s with val := s.val * 10 + (c.toNat - 48 : Nat) } := by
  obtain ⟨hSign, hLower, hPeriod⟩ := digit_plain hDigit
  rw [Parsing.next, hSkip, if_neg Bool.false_ne_true, if_neg hSign]
  dsimp only
  rw [hLower, hPeriod]
  dsimp only
  rw [if_pos hDigit, Parsing.digit, hDecimal, if_neg Bool.false_ne_true, hSkip]

theorem run_digits {text : Text} (h : ∀ c ∈ text, c.isDigit) (s : Parsing) (hSkip : s.skip = false)
    (hDecimal : s.decimal = false) :
    s.run text = { s with val := s.val * 10 ^ text.length + (Nat.ofDigitChars 10 text 0 : Nat) } := by
  induction text generalizing s with
  | nil => simp [Parsing.run]
  | cons c rest ih =>
      obtain ⟨hDigit, hRest⟩ := List.forall_mem_cons.mp h
      rw [Parsing.run, next_digit hDigit hSkip hDecimal,
        ih hRest { s with val := s.val * 10 + (c.toNat - 48 : Nat) } hSkip hDecimal, ofDigitChars_cons_zero,
        List.length_cons, pow_succ]
      congr 1
      push_cast
      ring

theorem tdparse_toText (n : Int) : tdparse (toText n) = n := by
  unfold tdparse toText
  split
  case isTrue hNeg =>
    have hAbs : ((n.natAbs : Nat) : ℚ) = -n := by rw [Nat.cast_natAbs, abs_of_neg hNeg, Int.cast_neg]
    rw [Parsing.run]
    have hSign : Parsing.start.next '-' (Nat.toDigits 10 n.natAbs).head? =
        { Parsing.start with negate := true } := rfl
    rw [hSign, run_digits (digits_isDigit _) _ rfl rfl, Nat.ofDigitChars_ten_toDigits, hAbs]
    simp [Parsing.value, Parsing.start]
  case isFalse hPos =>
    have hAbs : ((n.natAbs : Nat) : ℚ) = n := by rw [Nat.cast_natAbs, abs_of_nonneg (Int.not_lt.mp hPos)]
    rw [run_digits (digits_isDigit _) _ rfl rfl, Nat.ofDigitChars_ten_toDigits, hAbs]
    simp [Parsing.value, Parsing.start]

theorem ofText_toText (n : Int) : ofText (toText n) = n := by
  rw [ofText, tdparse_toText, Rat.num_intCast, Rat.den_intCast]
  exact Int.tdiv_one n

end Numbers

/-- A `Character_QuestState`, without the number of its quest. -/
structure QuestRecord where
  questState : Text
  questProgress : Text
  deriving Repr, DecidableEq

/-- What of a `Quest_Context` is saved. -/
structure QuestContext where
  stateName : Text
  progress : Progress
  deriving DecidableEq

def QuestContext.record (context : QuestContext) : QuestRecord :=
  ⟨context.stateName, serializeProgress context.progress⟩

/-- The maps `quests` and `quests_inactive` of a character. A quest that has been reset is
in `quests` without a context. -/
structure QuestBook where
  quests : SortedMap Int (Option QuestContext)
  inactive : SortedMap Int QuestRecord
  deriving DecidableEq

/-- The letters of `ReadIdentifier` after `lowercase`. -/
def IsIdentifier (text : Text) : Prop := ∀ c ∈ text, c.isLower ∨ c.isDigit ∨ c = '_' ∨ c = '$'

instance (text : Text) : Decidable (IsIdentifier text) := List.decidableBAll _ text

/-- `world->quests`. Names of states are identifiers. -/
structure QuestFiles where
  quest : Int → Option EOPlus.Quest
  names : ∀ id q, quest id = some q → ∀ entry ∈ q.states, IsIdentifier entry.1.toList

/-- `SetState` knows the name of the state. -/
def HasState (quest : EOPlus.Quest) (stateId : String) : Prop :=
  (quest.findState stateId).isSome ∨ stateId = "end" ∨ stateId = "done"

instance (quest : EOPlus.Quest) (stateId : String) : Decidable (HasState quest stateId) :=
  inferInstanceAs (Decidable (_ ∨ _))

/-- `SetState` in a new context without the actions of the state, then `UnserializeProgress`. -/
def resume (quest : EOPlus.Quest) (record : QuestRecord) : Option QuestContext :=
  let stateId := lowercase (String.ofList record.questState)
  if HasState quest stateId then
    some ⟨stateId.toList, unserializeProgress SortedMap.empty record.questProgress⟩
  else none

section SetState

variable {σ : Type} {v : Virtual σ} {this : ContextId} {record : QuestRecord}

/-- The name is taken over before the state is looked up. -/
theorem setState_unknown {name : String} (h : ¬HasState (v.quest this) (lowercase name)) (withActions : Bool)
    (s : Runtime σ) :
    setState v this name withActions s = .error (.runtimeError ("Unknown quest state: " ++ lowercase name))
      (s.setContext this { s.contexts this with stateName := lowercase name }) := by
  obtain ⟨hMissing, hEnds⟩ := not_or.mp h
  unfold setState
  rw [Option.not_isSome_iff_eq_none.mp hMissing]
  simp only [if_neg hEnds]
  rfl

/-- A record that cannot be resumed is one whose state `SetState` does not know. -/
theorem setState_of_resume_none (h : resume (v.quest this) record = none) (s : Runtime σ) :
    ∃ s', setState v this (String.ofList record.questState) false s =
      .error (.runtimeError ("Unknown quest state: " ++ lowercase (String.ofList record.questState))) s' := by
  unfold resume at h
  dsimp only at h
  split at h
  case isTrue => cases h
  case isFalse hUnknown => exact ⟨_, setState_unknown hUnknown false s⟩

theorem setState_of_resume {context : QuestContext} (h : resume (v.quest this) record = some context)
    (hBegin : ∀ name state s, ∃ s', v.beginState this name state s = .ok () s' ∧ s'.contexts = s.contexts)
    (s : Runtime σ) :
    ∃ s', setState v this (String.ofList record.questState) false s = .ok () s' ∧
      (s'.contexts this).stateName = String.ofList context.stateName := by
  choose begun hBegun hSame using hBegin
  unfold resume at h
  dsimp only at h
  split at h
  case isFalse => cases h
  case isTrue hKnown =>
    cases h
    rw [String.ofList_toList]
    cases hFound : (v.quest this).findState (lowercase (String.ofList record.questState)) with
    | none =>
        have hEnds := hKnown.resolve_left (by rw [hFound]; exact Bool.false_ne_true)
        unfold setState
        rw [hFound]
        simp only [if_pos hEnds]
        exact ⟨_, rfl, by simp [Runtime.setContext]⟩
    | some state =>
        unfold setState
        rw [hFound]
        refine ⟨_, bind_of_ok (f := fun _ => if false = true then doActions v this else return ())
          (hBegun _ _ _), ?_⟩
        rw [hSame]
        simp only [Runtime.setContext, Function.update_self]
        split <;> rfl

end SetState

/-- One quest in the text. -/
def recordText (entry : Int × QuestRecord) : Text :=
  toText entry.1 ++ ',' :: (entry.2.questState ++ ',' :: entry.2.questProgress)

def questSerialize (book : QuestBook) : Text :=
  (book.quests.entries.flatMap fun entry =>
    match entry.2 with
    | none => []
    | some context => recordText (entry.1, context.record) ++ [';']) ++
  book.inactive.entries.flatMap fun entry =>
    if (book.quests.find entry.1).isSome then [] else recordText entry ++ [';']

/-- The text before and after the first `c`. -/
def cutFirst (c : Char) : Text → Option (Text × Text)
  | [] => none
  | d :: rest => if d = c then some ([], rest) else (cutFirst c rest).map (Prod.map (d :: ·) id)

/-- One part of the text. Without progress it is of an older format. -/
def parseRecord (part : Text) : Option (Int × QuestRecord) :=
  match cutFirst ',' part with
  | none => none
  | some (id, rest) =>
      let record : QuestRecord :=
        match cutFirst ',' rest with
        | some (state, progress) => ⟨state, if progress.head?.all (· = '{') then progress else "{}".toList⟩
        | none => ⟨(cutFirst ';' rest).elim rest Prod.fst, "{}".toList⟩
      some (toShort (ofText id), record)

section Unserialize

variable (files : QuestFiles)

/-- The quest of a record, if it is there and knows the state. -/
def revive (entry : Int × QuestRecord) : Option QuestContext :=
  (files.quest entry.1).bind fun quest => resume quest entry.2

def loadRecord (book : QuestBook) (entry : Int × QuestRecord) : QuestBook :=
  match revive files entry with
  | none => { book with inactive := book.inactive.insert entry.1 entry.2 }
  | some context => { book with quests := book.quests.insert entry.1 (some context) }

def loadPart (book : QuestBook) (part : Text) : QuestBook :=
  (parseRecord part).elim book (loadRecord files book)

/-- `QuestUnserialize`, for a character without quests. -/
def questUnserialize (serialized : Text) : QuestBook :=
  (serialized.splitOn ';').foldl (loadPart files) ⟨SortedMap.empty, SortedMap.empty⟩

end Unserialize

/-- A record that the program writes. -/
structure IsRecord (entry : Int × QuestRecord) : Prop where
  id : toShort entry.1 = entry.1
  state : IsIdentifier entry.2.questState
  progress : ∃ progress, IsProgress progress ∧ entry.2.questProgress = serializeProgress progress

theorem IsIdentifier.not_mem {text : Text} (h : IsIdentifier text) {c : Char}
    (hc : ¬(c.isLower ∨ c.isDigit ∨ c = '_' ∨ c = '$')) : c ∉ text := fun hMem => hc (h c hMem)

section Parts

variable {entry : Int × QuestRecord}

theorem cutFirst_append {c : Char} {text : Text} (h : c ∉ text) (rest : Text) :
    cutFirst c (text ++ c :: rest) = some (text, rest) := by
  induction text with
  | nil => exact if_pos rfl
  | cons d text ih =>
      obtain ⟨hNe, hRest⟩ := not_or.mp (List.mem_cons.not.mp h)
      rw [List.cons_append, cutFirst, if_neg (Ne.symm hNe), ih hRest]
      rfl

theorem IsRecord.semicolon_not_mem (h : IsRecord entry) : ';' ∉ recordText entry := by
  obtain ⟨progress, hProgress, hText⟩ := h.progress
  have hId : ';' ∉ toText entry.1 := fun hMem => ne_of_mem_toText hMem (by decide) rfl
  have hState : ';' ∉ entry.2.questState := h.state.not_mem (by decide)
  have hWritten : ';' ∉ entry.2.questProgress := hText ▸ hProgress.semicolon_not_mem
  simp [recordText, hId, hState, hWritten]

theorem parseRecord_recordText (h : IsRecord entry) : parseRecord (recordText entry) = some entry := by
  obtain ⟨progress, -, hText⟩ := h.progress
  have hId : ',' ∉ toText entry.1 := fun hMem => ne_of_mem_toText hMem (by decide) rfl
  have hHead : entry.2.questProgress.head?.all (· = '{') = true := by
    rw [hText]
    rfl
  rw [parseRecord, recordText, cutFirst_append hId]
  dsimp only
  rw [cutFirst_append (h.state.not_mem (by decide)), ofText_toText, h.id]
  dsimp only
  rw [if_pos hHead]

/-- Texts with a separator behind each of them come apart again. Nothing is behind the last one. -/
theorem splitOn_closed {α : Type*} {c : Char} {text : α → Text} {entries : List α} (h : ∀ e ∈ entries, c ∉ text e) :
    (entries.flatMap fun e => text e ++ [c]).splitOn c = entries.map text ++ [[]] := by
  induction entries with
  | nil => rfl
  | cons e rest ih =>
      obtain ⟨hFirst, hRest⟩ := List.forall_mem_cons.mp h
      rw [List.flatMap_cons, List.append_assoc, List.singleton_append,
        List.splitOn_append_cons_self_of_not_mem hFirst, ih hRest, List.map_cons, List.cons_append]

theorem splitOn_recordTexts {records : List (Int × QuestRecord)} (h : ∀ e ∈ records, IsRecord e) :
    (records.flatMap fun e => recordText e ++ [';']).splitOn ';' = records.map recordText ++ [[]] :=
  splitOn_closed fun e he => (h e he).semicolon_not_mem

end Parts

/-- The records in the text, in their order. -/
def savedRecords (book : QuestBook) : List (Int × QuestRecord) :=
  (book.quests.entries.filterMap fun e => e.2.map fun context => (e.1, context.record)) ++
    book.inactive.entries.filter fun e => (book.quests.find e.1).isNone

theorem questSerialize_eq (book : QuestBook) :
    questSerialize book = (savedRecords book).flatMap fun e => recordText e ++ [';'] := by
  unfold questSerialize savedRecords
  rw [List.flatMap_append]
  congr 1
  · induction book.quests.entries with
    | nil => rfl
    | cons e rest ih =>
        obtain ⟨id, _ | context⟩ := e
        · exact ih
        · exact congrArg (_ ++ ·) ih
  · induction book.inactive.entries with
    | nil => rfl
    | cons e rest ih =>
        rw [List.flatMap_cons, List.filter_cons, ih]
        cases book.quests.find e.1 <;> rfl

theorem savedRecords_nodup (book : QuestBook) : ((savedRecords book).map Prod.fst).Nodup := by
  have hKeys : ∀ {ν : Type} (m : SortedMap Int ν), (m.entries.map Prod.fst).Nodup := fun m =>
    (List.pairwise_map.mpr m.sorted).imp ne_of_lt
  have hActive : List.Sublist
      ((book.quests.entries.filterMap fun e => e.2.map fun context => (e.1, context.record)).map Prod.fst)
      (book.quests.entries.map Prod.fst) := by
    induction book.quests.entries with
    | nil => exact .slnil
    | cons e rest ih =>
        obtain ⟨id, _ | context⟩ := e
        · exact ih.cons _
        · exact ih.cons_cons _
  unfold savedRecords
  rw [List.map_append]
  refine List.nodup_append.mpr ⟨(hKeys book.quests).sublist hActive,
    (hKeys book.inactive).sublist (List.filter_sublist.map _), ?_⟩
  rintro id hMem _ hInactive rfl
  obtain ⟨e, he, rfl⟩ := List.mem_map.mp (hActive.subset hMem)
  obtain ⟨e', he', hSame⟩ := List.mem_map.mp hInactive
  have hMissing := (List.mem_filter.mp he').2
  rw [hSame, SortedMap.find_of_mem he] at hMissing
  cases hMissing

section Load

variable {files : QuestFiles}

theorem questUnserialize_serialize {book : QuestBook} (h : ∀ e ∈ savedRecords book, IsRecord e) :
    questUnserialize files (questSerialize book) =
      (savedRecords book).foldl (loadRecord files) ⟨SortedMap.empty, SortedMap.empty⟩ := by
  have hParts : ∀ (records : List (Int × QuestRecord)) (start : QuestBook), (∀ e ∈ records, IsRecord e) →
      (records.map recordText).foldl (loadPart files) start = records.foldl (loadRecord files) start := by
    intro records start hAll
    induction records generalizing start with
    | nil => rfl
    | cons e rest ih =>
        obtain ⟨hFirst, hRest⟩ := List.forall_mem_cons.mp hAll
        rw [List.map_cons, List.foldl_cons, List.foldl_cons, ih _ hRest, loadPart,
          parseRecord_recordText hFirst, Option.elim_some]
  rw [questUnserialize, questSerialize_eq, splitOn_recordTexts h, List.foldl_append, hParts _ _ h]
  rfl

theorem loadRecord_other {book : QuestBook} {entry : Int × QuestRecord} {id : Int} (h : id ≠ entry.1) :
    (loadRecord files book entry).quests.find id = book.quests.find id ∧
      (loadRecord files book entry).inactive.find id = book.inactive.find id := by
  unfold loadRecord
  split
  · exact ⟨rfl, (SortedMap.find_insert ..).trans (if_neg h)⟩
  · exact ⟨(SortedMap.find_insert ..).trans (if_neg h), rfl⟩

theorem foldl_loadRecord_other {records : List (Int × QuestRecord)} {id : Int}
    (h : id ∉ records.map Prod.fst) (book : QuestBook) :
    (records.foldl (loadRecord files) book).quests.find id = book.quests.find id ∧
      (records.foldl (loadRecord files) book).inactive.find id = book.inactive.find id := by
  induction records generalizing book with
  | nil => exact ⟨rfl, rfl⟩
  | cons e rest ih =>
      obtain ⟨hNe, hRest⟩ := not_or.mp (List.mem_cons.not.mp h)
      obtain ⟨hQuests, hInactive⟩ := ih hRest (loadRecord files book e)
      obtain ⟨hQuests', hInactive'⟩ := @loadRecord_other files book e id hNe
      exact ⟨hQuests.trans hQuests', hInactive.trans hInactive'⟩

/-- A record is loaded as if it was alone. -/
theorem foldl_loadRecord {records : List (Int × QuestRecord)} (hNodup : (records.map Prod.fst).Nodup)
    {entry : Int × QuestRecord} (hMem : entry ∈ records) {book : QuestBook}
    (hQuests : book.quests.find entry.1 = none) (hInactive : book.inactive.find entry.1 = none) :
    (records.foldl (loadRecord files) book).quests.find entry.1 = (revive files entry).map some ∧
      (records.foldl (loadRecord files) book).inactive.find entry.1 =
        if (revive files entry).isNone then some entry.2 else none := by
  induction records generalizing book with
  | nil => cases hMem
  | cons e rest ih =>
      obtain ⟨hFirst, hRest⟩ := List.nodup_cons.mp hNodup
      rcases List.mem_cons.mp hMem with rfl | hLater
      · obtain ⟨hQuests', hInactive'⟩ := foldl_loadRecord_other hFirst (loadRecord files book entry)
        rw [List.foldl_cons, hQuests', hInactive', loadRecord]
        cases revive files entry with
        | none => exact ⟨hQuests, by simp [SortedMap.find_insert, hInactive]⟩
        | some context => exact ⟨by simp [SortedMap.find_insert, hQuests], hInactive⟩
      · have hNe : entry.1 ≠ e.1 := fun hSame => hFirst (hSame ▸ List.mem_map_of_mem hLater)
        obtain ⟨hQuests', hInactive'⟩ := @loadRecord_other files book e entry.1 hNe
        exact ih hRest hLater (hQuests'.trans hQuests) (hInactive'.trans hInactive)

end Load

/-- The quest is there and knows the state. -/
def QuestFiles.Accepts (files : QuestFiles) (id : Int) (stateName : Text) : Prop :=
  ∃ quest, files.quest id = some quest ∧ HasState quest (String.ofList stateName)

section Revive

variable {files : QuestFiles} {id : Int} {context : QuestContext}

theorem IsIdentifier.toLower {text : Text} (h : IsIdentifier text) : text.map Char.toLower = text := by
  refine (List.map_congr_left fun c hc => ?_).trans (List.map_id text)
  refine dif_neg fun hUpper => ?_
  have hRange : 65 ≤ c.toNat ∧ c.toNat ≤ 90 := by
    simpa [UInt32.le_iff_toNat_le] using hUpper
  rcases h c hc with hLower | hDigit | rfl | rfl
  · have hMin : 97 ≤ c.toNat := by
      have hBoth : 97 ≤ c.toNat ∧ c.toNat ≤ 122 := by
        have hLetter : (c.val ≥ 97 && c.val ≤ 122) = true := hLower
        simpa [UInt32.le_iff_toNat_le] using hLetter
      exact hBoth.1
    omega
  · have hMax : c.toNat ≤ 57 := by
      have hBoth : 48 ≤ c.toNat ∧ c.toNat ≤ 57 := by
        simpa [Char.isDigit, UInt32.le_iff_toNat_le] using hDigit
      exact hBoth.2
    omega
  · revert hRange
    decide
  · revert hRange
    decide

theorem lowercase_stateName (h : IsIdentifier context.stateName) :
    lowercase (String.ofList context.stateName) = String.ofList context.stateName := by
  rw [lowercase, String.toList_ofList, h.toLower]

theorem QuestFiles.Accepts.isIdentifier (h : files.Accepts id context.stateName) :
    IsIdentifier context.stateName := by
  obtain ⟨quest, hQuest, hState⟩ := h
  rcases hState with hFound | hEnd | hDone
  · obtain ⟨state, hFound⟩ := Option.isSome_iff_exists.mp hFound
    have hName := files.names id quest hQuest _ (Quest.mem_of_findState hFound)
    rwa [String.toList_ofList] at hName
  · have hText : context.stateName = "end".toList := by rw [← hEnd, String.toList_ofList]
    rw [hText]
    decide
  · have hText : context.stateName = "done".toList := by rw [← hDone, String.toList_ofList]
    rw [hText]
    decide

theorem resume_record (hName : IsIdentifier context.stateName) (quest : EOPlus.Quest) :
    resume quest context.record =
      if HasState quest (String.ofList context.stateName) then
        some ⟨context.stateName, unserializeProgress SortedMap.empty (serializeProgress context.progress)⟩
      else none := by
  have hLower := lowercase_stateName hName
  simp only [resume, QuestContext.record, hLower, String.toList_ofList]

theorem revive_of_accepts (hProgress : Writable context.progress)
    (hAccepts : files.Accepts id context.stateName) :
    revive files (id, context.record) = some ⟨context.stateName, context.progress.mapValues reread⟩ := by
  have hName := hAccepts.isIdentifier
  obtain ⟨quest, hQuest, hState⟩ := hAccepts
  rw [revive, hQuest, Option.bind_some, resume_record hName, if_pos hState,
    unserialize_serialize hProgress.keys]

theorem revive_of_not_accepts (hName : IsIdentifier context.stateName)
    (hAccepts : ¬files.Accepts id context.stateName) : revive files (id, context.record) = none := by
  rw [revive]
  cases hQuest : files.quest id with
  | none => rfl
  | some quest =>
      rw [Option.bind_some, resume_record hName, if_neg fun hState => hAccepts ⟨quest, hQuest, hState⟩]

end Revive

/-- What a quest that the program has written was like. -/
structure QuestContext.Written (context : QuestContext) : Prop where
  progress : IsProgress context.progress
  name : IsIdentifier context.stateName

/-- A state of a quest that is there. -/
structure QuestContext.Ongoing (files : QuestFiles) (id : Int) (context : QuestContext) : Prop where
  progress : IsProgress context.progress
  accepted : files.Accepts id context.stateName

theorem QuestContext.Ongoing.written {files : QuestFiles} {id : Int} {context : QuestContext}
    (h : context.Ongoing files id) : context.Written := ⟨h.progress, h.accepted.isIdentifier⟩

/-- The quests of a character, with its inactive ones before they were written. The files may
have changed since. -/
structure CharacterQuests (files : QuestFiles) where
  quests : SortedMap Int (Option QuestContext)
  inactive : SortedMap Int QuestContext
  questIds : ∀ e ∈ quests.entries, toShort e.1 = e.1
  inactiveIds : ∀ e ∈ inactive.entries, toShort e.1 = e.1
  active : ∀ id context, quests.find id = some (some context) → context.Ongoing files id
  kept : ∀ id context, inactive.find id = some context → context.Written

/-- All counters of a quest are read back as they were written. -/
def QuestContext.Counts (context : QuestContext) : Prop := ∀ e ∈ context.progress.entries, Restorable e.2

theorem reread_counts {context : QuestContext} (hProgress : Writable context.progress) :
    (⟨context.stateName, context.progress.mapValues reread⟩ : QuestContext) = context ↔ context.Counts := by
  have hValues := roundTrip_iff hProgress
  rw [unserialize_serialize hProgress.keys] at hValues
  exact ⟨fun hSame => hValues.mp (congrArg QuestContext.progress hSame), fun hCounts =>
    congrArg (QuestContext.mk context.stateName) (hValues.mpr hCounts)⟩

namespace CharacterQuests

variable {files : QuestFiles} (character : CharacterQuests files)

def book : QuestBook := ⟨character.quests, character.inactive.mapValues QuestContext.record⟩

/-- What is left after the quests have been written and read. -/
def saved : QuestBook := questUnserialize files (questSerialize character.book)

/-- An inactive quest whose file is there again may become active. -/
def Restores : Prop :=
  (∀ id context, character.quests.find id = some (some context) →
    character.saved.quests.find id = some (some context)) ∧
  ∀ id context, character.inactive.find id = some context → character.quests.find id = none →
    character.saved.inactive.find id = some context.record ∨
      character.saved.quests.find id = some (some context)

/-- Every counter that is read is read as it was. -/
def Survives : Prop :=
  (∀ id context, character.quests.find id = some (some context) → context.Counts) ∧
  ∀ id context, character.inactive.find id = some context → character.quests.find id = none →
    files.Accepts id context.stateName → context.Counts

variable {character} {id : Int} {context : QuestContext}

theorem mem_savedRecords {entry : Int × QuestRecord} (h : entry ∈ savedRecords character.book) :
    ∃ context : QuestContext, entry.2 = context.record ∧
      (character.quests.find entry.1 = some (some context) ∨
        character.inactive.find entry.1 = some context) := by
  rcases List.mem_append.mp h with hActive | hInactive
  · obtain ⟨⟨id, _ | context⟩, hMem, hEntry⟩ := List.mem_filterMap.mp hActive
    · cases hEntry
    · cases hEntry
      exact ⟨context, rfl, .inl (SortedMap.find_of_mem hMem)⟩
  · obtain ⟨⟨id, context⟩, hMem, rfl⟩ := List.mem_map.mp (List.mem_filter.mp hInactive).1
    exact ⟨context, rfl, .inr (SortedMap.find_of_mem hMem)⟩

theorem savedRecords_isRecord : ∀ e ∈ savedRecords character.book, IsRecord e := by
  intro e he
  obtain ⟨context, hRecord, hFrom⟩ := mem_savedRecords he
  rcases hFrom with hActive | hKept
  · have hWritten := (character.active _ _ hActive).written
    exact ⟨character.questIds _ (SortedMap.mem_of_find hActive), hRecord ▸ hWritten.name, context.progress,
      hWritten.progress, hRecord ▸ rfl⟩
  · have hWritten := character.kept _ _ hKept
    exact ⟨character.inactiveIds _ (SortedMap.mem_of_find hKept), hRecord ▸ hWritten.name, context.progress,
      hWritten.progress, hRecord ▸ rfl⟩

/-- A saved record is read as if it was the only one. -/
theorem saved_find {entry : Int × QuestRecord} (h : entry ∈ savedRecords character.book) :
    character.saved.quests.find entry.1 = (revive files entry).map some ∧
      character.saved.inactive.find entry.1 = if (revive files entry).isNone then some entry.2 else none := by
  rw [saved, questUnserialize_serialize savedRecords_isRecord]
  exact foldl_loadRecord (savedRecords_nodup _) h rfl rfl

theorem saved_active (h : character.quests.find id = some (some context)) :
    character.saved.quests.find id = some (some ⟨context.stateName, context.progress.mapValues reread⟩) := by
  have hMem : (id, context.record) ∈ savedRecords character.book :=
    List.mem_append_left _ (List.mem_filterMap.mpr ⟨(id, some context), SortedMap.mem_of_find h, rfl⟩)
  have hOngoing := character.active id context h
  rw [(saved_find hMem).1, revive_of_accepts hOngoing.progress.writable hOngoing.accepted, Option.map_some]

theorem mem_savedRecords_of_inactive (h : character.inactive.find id = some context)
    (hMissing : character.quests.find id = none) : (id, context.record) ∈ savedRecords character.book :=
  List.mem_append_right _ (List.mem_filter.mpr
    ⟨List.mem_map.mpr ⟨(id, context), SortedMap.mem_of_find h, rfl⟩, by simpa [book] using hMissing⟩)

theorem saved_inactive (h : character.inactive.find id = some context)
    (hMissing : character.quests.find id = none) (hAccepts : ¬files.Accepts id context.stateName) :
    character.saved.inactive.find id = some context.record := by
  rw [(saved_find (mem_savedRecords_of_inactive h hMissing)).2,
    revive_of_not_accepts (character.kept id context h).name hAccepts]
  rfl

/-- The quest is active again, and its record gone. -/
theorem saved_resumed (h : character.inactive.find id = some context)
    (hMissing : character.quests.find id = none) (hAccepts : files.Accepts id context.stateName) :
    character.saved.quests.find id = some (some ⟨context.stateName, context.progress.mapValues reread⟩) ∧
      character.saved.inactive.find id = none := by
  obtain ⟨hQuests, hInactive⟩ := saved_find (mem_savedRecords_of_inactive h hMissing)
  rw [hQuests, hInactive, revive_of_accepts (character.kept id context h).progress.writable hAccepts]
  exact ⟨rfl, rfl⟩

/-- Quests come back from the text exactly if no counter that is read goes wrong. -/
theorem comesBack_iff (character : CharacterQuests files) : character.Restores ↔ character.Survives := by
  refine and_congr (forall₂_congr fun id context => forall_congr' fun h => ?_)
    (forall₂_congr fun id context => forall₂_congr fun h hMissing => ?_)
  · rw [saved_active h, Option.some_inj, Option.some_inj]
    exact reread_counts (character.active id context h).progress.writable
  · by_cases hAccepts : files.Accepts id context.stateName
    · obtain ⟨hQuests, hInactive⟩ := saved_resumed h hMissing hAccepts
      rw [hQuests, hInactive, Option.some_inj, Option.some_inj]
      refine Iff.trans (or_iff_right nofun) ((reread_counts (character.kept id context h).progress.writable).trans ?_)
      exact ⟨fun hCounts _ => hCounts, fun hCounts => hCounts hAccepts⟩
    · exact iff_of_true (.inl (saved_inactive h hMissing hAccepts)) fun hAccepted => absurd hAccepted hAccepts

end CharacterQuests

/-- A quest with one state. -/
def diceFiles : QuestFiles where
  quest id := if id = 1 then some ⟨false, [("begin", ⟨"", [], [], 0⟩)]⟩ else none
  names := by
    intro id q h entry hEntry
    split at h
    · cases h
      obtain rfl := List.mem_singleton.mp hEntry
      decide
    · cases h

/-- A roll of 65535, kept as a `short`. -/
def dice : QuestContext := ⟨"begin".toList, SortedMap.empty.put ['r'] (toShort 65535)⟩

def rolled : CharacterQuests diceFiles where
  quests := SortedMap.empty.insert 1 (some dice)
  inactive := SortedMap.empty
  questIds := by decide
  inactiveIds := by decide
  active := by
    intro id context h
    rw [SortedMap.find_insert] at h
    split at h
    case isTrue hId =>
      cases h
      refine ⟨⟨fun e he => ?_, fun e he => ?_⟩, ?_⟩
      · obtain rfl := List.mem_singleton.mp he
        exact ⟨.roll, rfl⟩
      · obtain rfl := List.mem_singleton.mp he
        rfl
      · subst hId
        exact ⟨_, rfl, by decide⟩
    case isFalse => cases h
  kept := nofun

/-- The sign is read as if it was a digit. -/
theorem not_restores_rolled : ¬rolled.Restores := by
  intro h
  have hRead := @CharacterQuests.saved_active _ rolled 1 dice rfl
  have hWritten := hRead.symm.trans (h.1 1 dice rfl)
  revert hWritten
  decide

end Etheos.QuestStates
