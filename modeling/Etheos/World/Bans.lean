import Etheos.Database.Literals
import Mathlib.Data.List.Forall2

/-! Bans, and the search for them. Their queries are put together from texts, and are formats of queries themselves. -/
namespace Etheos.Databases

open General QuestStates
open Characters (toInt)

/-- What has a meaning in a format is replaced. -/
def hide (c : Char) : Char := if c = '@' ∨ c = '#' ∨ c = '$' then '?' else c

section Queries

variable (engine : Engine) (escape : Engine → Text → Text)

/-- `Database::Escape`. -/
def databaseEscape (raw : Text) : Text :=
  (if engine = .sqlServer then raw else escape engine raw).map hide

/-- When a ban ends, or 0. -/
def banExpires (now duration : Int) : Int := if duration = -1 then 0 else toInt (now + duration)

/-- The query of `World::Ban`. -/
def banQuery (username : Text) (ip hdid now duration : Int) (setter : Text) : Text :=
  "INSERT INTO bans (username, ip, hdid, expires, setter) VALUES ".toList ++
    ("('".toList ++ databaseEscape engine escape username ++ "', ".toList) ++
    (toText ip ++ ", ".toList) ++ (toText hdid ++ ", ".toList) ++ toText (banExpires now duration) ++
    (", '".toList ++ databaseEscape engine escape setter ++ "')".toList)

/-- What a ban is to have in common with the one who is looked for. -/
def banConditions (username : Option Text) (address hdid : Option Int) : List Text :=
  (username.map fun username => "username = '".toList ++ databaseEscape engine escape username ++ "'".toList).toList ++
    (address.map fun address => "ip = ".toList ++ toText address).toList ++
    (hdid.map fun hdid => "hdid = ".toList ++ toText hdid).toList

def checkBanStart : Text := "SELECT COALESCE(MAX(expires),-1) AS expires FROM bans WHERE (".toList

/-- The format of `World::CheckBan`. The last ` OR ` is cut off. -/
def checkBanQuery (username : Option Text) (address hdid : Option Int) : Option Text :=
  if username = none ∧ address = none ∧ hdid = none then none
  else
    let query := checkBanStart ++ (banConditions engine escape username address hdid).flatMap (· ++ " OR ".toList)
    some (query.take (query.length - 4) ++ ") AND (expires > # OR expires = 0)".toList)

end Queries

/-- The tokens of a text without literals. -/
def plainTokens (text : Text) : List (Token Char) := text.map .plain

/-- What a ban is to be read as. -/
def banTokens (username : Text) (ip hdid now duration : Int) (setter : Text) : List (Token Char) :=
  plainTokens ("INSERT INTO bans (username, ip, hdid, expires, setter) VALUES ".toList ++ "(".toList) ++
    [.literal (username.map hide)] ++
    plainTokens (", ".toList ++ toText ip ++ ", ".toList ++ toText hdid ++ ", ".toList ++
      toText (banExpires now duration) ++ ", ".toList) ++
    [.literal (setter.map hide)] ++ plainTokens ")".toList

def conditionTokens (username : Option Text) (address hdid : Option Int) : List (List (Token Char)) :=
  (username.map fun username => plainTokens "username = ".toList ++ [.literal (username.map hide)]).toList ++
    (address.map fun address => plainTokens ("ip = ".toList ++ toText address)).toList ++
    (hdid.map fun hdid => plainTokens ("hdid = ".toList ++ toText hdid)).toList

/-- What a search is to be read as. -/
def checkBanTokens (username : Option Text) (address hdid : Option Int) (now : Int) : List (Token Char) :=
  plainTokens checkBanStart ++ (plainTokens " OR ".toList).intercalate (conditionTokens username address hdid) ++
    plainTokens (") AND (expires > ".toList ++ toText now ++ " OR expires = 0)".toList)

/-- The text has nothing in it that `Query` would replace. -/
def Inert (text : Text) : Prop := ∀ c ∈ text, c ≠ '#' ∧ c ≠ '@' ∧ c ≠ '$'

instance (text : Text) : Decidable (Inert text) := List.decidableBAll (fun c => c ≠ '#' ∧ c ≠ '@' ∧ c ≠ '$') text

section Reads

variable {engine : Engine} {escape : Engine → Text → Text} {r r' : Reading Char} {text more : Text}

theorem Inert.append (h : Inert text) (hMore : Inert more) : Inert (text ++ more) := fun c hc =>
  (List.mem_append.mp hc).elim (h c) (hMore c)

theorem inert_toText (n : Int) : Inert (toText n) := fun _ hc =>
  ⟨ne_of_mem_toText hc (by decide), ne_of_mem_toText hc (by decide), ne_of_mem_toText hc (by decide)⟩

theorem inert_escape (raw : Text) : Inert (databaseEscape engine escape raw) := by
  intro c hc
  obtain ⟨d, -, rfl⟩ := List.mem_map.mp hc
  unfold hide
  split
  · decide
  next hPlain => exact ⟨fun h => hPlain (.inr (.inl h)), fun h => hPlain (.inl h), fun h => hPlain (.inr (.inr h))⟩

theorem readFormat_inert (h : Inert text) (more : Text) (args : List Arg) :
    readFormat engine (text ++ more) args r = readFormat engine more args ((quoting engine).reads r text) := by
  induction text generalizing r with
  | nil => rfl
  | cons c text ih =>
      obtain ⟨hFirst, hRest⟩ := List.forall_mem_cons.mp h
      rw [List.cons_append, readFormat, readChar_char hFirst, Option.bind_some, ih hRest]
      rfl

theorem hide_eq (c : Char) : hide c = c ∨ hide c = '?' ∧ (c = '@' ∨ c = '#' ∨ c = '$') := by
  unfold hide
  split
  next h => exact .inr ⟨rfl, h⟩
  next => exact .inl rfl

/-- Masks are not changed by what is hidden. -/
theorem map_hide_mask (c : Char) : (mask engine c).map hide = if hide c = c then mask engine c else ['?'] := by
  obtain hSame | ⟨hHidden, hSpecial⟩ := hide_eq c
  · rw [if_pos hSame]
    cases engine with
    | mySQL =>
        unfold mask
        dsimp only
        split_ifs with hNul hLine hReturn hEnd hEscape
        · decide
        · decide
        · decide
        · decide
        · obtain rfl | rfl | rfl := hEscape <;> decide
        · rw [List.map_singleton, hSame]
    | sqlite =>
        unfold mask
        dsimp only
        split_ifs
        · decide
        · rw [List.map_singleton, hSame]
    | sqlServer => rw [mask, List.map_singleton, hSame]
  · obtain rfl | rfl | rfl := hSpecial <;> cases engine <;> decide

theorem reads_hidden (hEngine : engine ≠ .sqlServer) (hEscape : Masks engine escape) (raw : Text)
    (hMode : r.mode = .literal) :
    (quoting engine).reads r (databaseEscape engine escape raw) = r.extend (raw.map hide) := by
  have hMask : ∀ (r : Reading Char) c, r.mode = .literal →
      (quoting engine).reads r ((mask engine c).map hide) = r.extend [hide c] := by
    intro r c hMode
    rw [map_hide_mask]
    split
    next hSame => rw [reads_mask hEngine hMode, hSame]
    next hOther =>
      have hHidden : hide c = '?' := ((hide_eq c).resolve_left hOther).1
      rw [hHidden]
      exact Quoting.read_own hMode (by cases engine <;> decide) (by cases engine <;> decide)
  rw [databaseEscape, if_neg hEngine, hEscape raw, List.map_flatMap]
  exact Quoting.reads_flatMap hMask hMode raw

/-- The quote is the same in all engines. -/
theorem quote_eq : (quoting engine).quote = '\'' := by cases engine <;> rfl

theorem writes_plain (h : '\'' ∉ text) : (quoting engine).Writes text (plainTokens text) :=
  Quoting.Writes.plain (quote_eq ▸ h)

theorem quote_not_mem_toText (n : Int) : '\'' ∉ toText n := fun h => ne_of_mem_toText h (by decide) rfl

theorem writes_literal (hEngine : engine ≠ .sqlServer) (hEscape : Masks engine escape) (raw : Text)
    (h : '\'' ∉ text) (hText : text ≠ []) :
    (quoting engine).Writes (text ++ '\'' :: (databaseEscape engine escape raw ++ ['\'']))
      (plainTokens text ++ [.literal (raw.map hide)]) := by
  have hWrites := Quoting.Writes.literal (q := quoting engine) (quote_eq ▸ h) hText
    fun r hMode => reads_hidden hEngine hEscape raw hMode
  rwa [quote_eq] at hWrites

/-- Where a format is put together of parts that are read as they should be, so is the query. -/
theorem parse_writes {format : Text} {args : List Arg} {tokens : List (Token Char)} (hEngine : engine ≠ .sqlServer)
    (hEscape : Masks engine escape) (hRead : readFormat engine format args .start = some r)
    (hFinish : r.finish = some tokens) :
    ∃ query, parseQueryArgs engine escape format .start args = some (query, []) ∧
      ((quoting engine).reads .start query).finish = some tokens := by
  obtain ⟨query, hQuery, hReads⟩ := parse_reads (s := .start) hEngine hEscape rfl hRead
  exact ⟨query, hQuery, hReads ▸ hFinish⟩

/-- The texts between the quotes of a ban. -/
theorem ban_parts (start username ip hdid expires setter : Text) :
    start ++ ("('".toList ++ username ++ "', ".toList) ++ (ip ++ ", ".toList) ++ (hdid ++ ", ".toList) ++ expires ++
        (", '".toList ++ setter ++ "')".toList) =
      ((start ++ "(".toList) ++ '\'' :: (username ++ ['\''])) ++
        ((", ".toList ++ ip ++ ", ".toList ++ hdid ++ ", ".toList ++ expires ++ ", ".toList) ++
          '\'' :: (setter ++ ['\''])) ++ ")".toList := by
  simp

theorem ban_reads (hEngine : engine ≠ .sqlServer) (hEscape : Masks engine escape) (username setter : Text)
    (ip hdid now duration : Int) :
    ∃ query, parseQueryArgs engine escape (banQuery engine escape username ip hdid now duration setter) .start [] =
        some (query, []) ∧
      ((quoting engine).reads .start query).finish = some (banTokens username ip hdid now duration setter) := by
  have hInert : Inert (banQuery engine escape username ip hdid now duration setter) := by
    have hComma : Inert ", ".toList := by decide
    have hStart : Inert "INSERT INTO bans (username, ip, hdid, expires, setter) VALUES ".toList := by decide
    have hFirst : Inert ("('".toList ++ databaseEscape engine escape username ++ "', ".toList) :=
      (Inert.append (by decide) (inert_escape _)).append (by decide)
    have hLast : Inert (", '".toList ++ databaseEscape engine escape setter ++ "')".toList) :=
      (Inert.append (by decide) (inert_escape _)).append (by decide)
    exact ((((hStart.append hFirst).append ((inert_toText _).append hComma)).append
      ((inert_toText _).append hComma)).append (inert_toText _)).append hLast
  have hNumbers : '\'' ∉ ", ".toList ++ toText ip ++ ", ".toList ++ toText hdid ++ ", ".toList ++
      toText (banExpires now duration) ++ ", ".toList := by
    have hComma : '\'' ∉ ", ".toList := by decide
    simp only [List.mem_append, quote_not_mem_toText, hComma, or_self, not_false_eq_true]
  have hStart : '\'' ∉ "INSERT INTO bans (username, ip, hdid, expires, setter) VALUES ".toList ++ "(".toList := by
    decide
  have hEnd : '\'' ∉ ")".toList := by decide
  have hWrites := ((writes_literal hEngine hEscape username hStart (by simp)).append
    (writes_literal hEngine hEscape setter hNumbers (by simp))).append (writes_plain hEnd)
  refine parse_writes hEngine hEscape
    (r := (quoting engine).reads .start (banQuery engine escape username ip hdid now duration setter)) ?_ ?_
  · have hRead : readFormat engine _ [] .start = _ := readFormat_inert hInert [] []
    rwa [List.append_nil] at hRead
  · have hFinish := hWrites .start [] rfl
    rw [← ban_parts] at hFinish
    exact hFinish.trans (by simp [banTokens, plainTokens])

section Conditions

variable {conditions : List Text} {tokens : List (List (Token Char))} {separator start : Text}

/-- The separator behind the last one is cut off. -/
theorem take_joined (h : conditions ≠ []) :
    (start ++ conditions.flatMap (· ++ separator)).take
        ((start ++ conditions.flatMap (· ++ separator)).length - separator.length) =
      start ++ separator.intercalate conditions := by
  have hJoined : conditions.flatMap (· ++ separator) = separator.intercalate conditions ++ separator := by
    induction conditions with
    | nil => exact absurd rfl h
    | cons first rest ih =>
        cases rest with
        | nil => simp
        | cons second rest =>
            rw [List.flatMap_cons, ih (by simp), List.intercalate_cons_cons]
            simp only [List.append_assoc]
  rw [hJoined, ← List.append_assoc, List.length_append, Nat.add_sub_cancel]
  exact List.take_left

theorem inert_intercalate (hSeparator : Inert separator) (h : ∀ condition ∈ conditions, Inert condition) :
    Inert (separator.intercalate conditions) := by
  induction conditions with
  | nil => exact fun _ hc => absurd hc (by simp)
  | cons first rest ih =>
      obtain ⟨hFirst, hRest⟩ := List.forall_mem_cons.mp h
      cases rest with
      | nil => simpa using hFirst
      | cons second rest =>
          rw [List.intercalate_cons_cons]
          exact (hFirst.append hSeparator).append (ih hRest)

theorem writes_intercalate (hSeparator : '\'' ∉ separator)
    (h : List.Forall₂ (quoting engine).Writes conditions tokens) :
    (quoting engine).Writes (separator.intercalate conditions) ((plainTokens separator).intercalate tokens) := by
  induction h with
  | nil => exact writes_plain (show '\'' ∉ ([] : Text) by simp)
  | @cons first firstTokens rest restTokens hFirst hRest ih =>
      cases hRest with
      | nil => simpa using hFirst
      | cons hSecond hMore =>
          rw [List.intercalate_cons_cons, List.intercalate_cons_cons]
          exact (hFirst.append (writes_plain hSeparator)).append ih

/-- Each condition is read as it should be. -/
theorem writes_conditions (hEngine : engine ≠ .sqlServer) (hEscape : Masks engine escape) (username : Option Text)
    (address hdid : Option Int) :
    List.Forall₂ (quoting engine).Writes (banConditions engine escape username address hdid)
      (conditionTokens username address hdid) := by
  have hNumber : ∀ (name : Text) (n : Int), '\'' ∉ name →
      (quoting engine).Writes (name ++ toText n) (plainTokens (name ++ toText n)) := fun name n hName =>
    writes_plain (by simp [hName, quote_not_mem_toText])
  have hName : ∀ name : Text, (quoting engine).Writes
      ("username = '".toList ++ databaseEscape engine escape name ++ "'".toList)
      (plainTokens "username = ".toList ++ [.literal (name.map hide)]) := by
    intro name
    have hWrites := writes_literal hEngine hEscape name (show '\'' ∉ "username = ".toList by decide) (by simp)
    have hText : "username = '".toList ++ databaseEscape engine escape name ++ "'".toList =
        "username = ".toList ++ '\'' :: (databaseEscape engine escape name ++ ['\'']) := by simp
    rwa [hText]
  refine List.rel_append (List.rel_append ?_ ?_) ?_
  · cases username with
    | none => exact .nil
    | some name => exact .cons (hName name) .nil
  · cases address with
    | none => exact .nil
    | some n => exact .cons (hNumber _ n (by decide)) .nil
  · cases hdid with
    | none => exact .nil
    | some n => exact .cons (hNumber _ n (by decide)) .nil

theorem inert_conditions (username : Option Text) (address hdid : Option Int) :
    ∀ condition ∈ banConditions engine escape username address hdid, Inert condition := by
  intro condition hCondition
  simp only [banConditions, List.mem_append, Option.mem_toList, Option.map_eq_some_iff] at hCondition
  obtain (⟨name, -, rfl⟩ | ⟨n, -, rfl⟩) | ⟨n, -, rfl⟩ := hCondition
  · exact (Inert.append (by decide) (inert_escape _)).append (by decide)
  · exact Inert.append (by decide) (inert_toText _)
  · exact Inert.append (by decide) (inert_toText _)

end Conditions

section Search

variable {condition : Text}

theorem readFormat_number (rest : Text) (n : Int) (args : List Arg) :
    readFormat engine ('#' :: rest) (.int n :: args) r =
      readFormat engine rest args ((quoting engine).reads r (toText n)) :=
  rfl

/-- The one argument stands for the one thing that is to be replaced. -/
theorem read_search (h : Inert condition) (now : Int) :
    readFormat engine ((checkBanStart ++ condition) ++ ") AND (expires > # OR expires = 0)".toList) [.int now] .start =
      some ((quoting engine).reads .start
        (checkBanStart ++ condition ++ ") AND (expires > ".toList ++ (toText now ++ " OR expires = 0)".toList))) := by
  have hBefore : Inert (checkBanStart ++ condition ++ ") AND (expires > ".toList) :=
    (Inert.append (by decide) h).append (by decide)
  have hAfter : Inert " OR expires = 0)".toList := by decide
  have hEnd : ") AND (expires > # OR expires = 0)".toList =
      ") AND (expires > ".toList ++ '#' :: (" OR expires = 0)".toList ++ []) := rfl
  rw [hEnd, ← List.append_assoc, readFormat_inert hBefore, readFormat_number, readFormat_inert hAfter, readFormat]
  simp only [Quoting.reads_append]

theorem writes_search {tokens : List (Token Char)} (h : (quoting engine).Writes condition tokens) (now : Int) :
    (quoting engine).Writes
      (checkBanStart ++ condition ++ ") AND (expires > ".toList ++ (toText now ++ " OR expires = 0)".toList))
      (plainTokens checkBanStart ++ tokens ++
        plainTokens (") AND (expires > ".toList ++ toText now ++ " OR expires = 0)".toList)) := by
  have hBefore : '\'' ∉ ") AND (expires > ".toList := by decide
  have hAfter : '\'' ∉ " OR expires = 0)".toList := by decide
  have hEnd : '\'' ∉ ") AND (expires > ".toList ++ toText now ++ " OR expires = 0)".toList := by
    simp only [List.mem_append, quote_not_mem_toText, hBefore, hAfter, or_self, not_false_eq_true]
  have hStart : (quoting engine).Writes checkBanStart (plainTokens checkBanStart) := writes_plain (by decide)
  have hAll := (hStart.append h).append (writes_plain hEnd)
  rwa [List.append_assoc (") AND (expires > ".toList), ← List.append_assoc] at hAll

end Search

theorem checkBan_reads (hEngine : engine ≠ .sqlServer) (hEscape : Masks engine escape) {username : Option Text}
    {address hdid : Option Int} (now : Int) {format : Text}
    (hFormat : checkBanQuery engine escape username address hdid = some format) :
    ∃ query, parseQueryArgs engine escape format .start [.int now] = some (query, []) ∧
      ((quoting engine).reads .start query).finish = some (checkBanTokens username address hdid now) := by
  unfold checkBanQuery at hFormat
  split at hFormat
  next => cases hFormat
  next hAsked =>
    obtain rfl := Option.some.inj hFormat
    have hConditions : banConditions engine escape username address hdid ≠ [] := by
      intro hNone
      refine hAsked ⟨?_, ?_, ?_⟩ <;> simp_all [banConditions]
    have hInert : Inert (" OR ".toList.intercalate (banConditions engine escape username address hdid)) :=
      inert_intercalate (by decide) (inert_conditions username address hdid)
    have hWrites := writes_search (writes_intercalate (show '\'' ∉ " OR ".toList by decide)
      (writes_conditions hEngine hEscape username address hdid)) now
    have hCut : ∀ start : Text, (start ++ (banConditions engine escape username address hdid).flatMap
        (· ++ " OR ".toList)).take ((start ++ (banConditions engine escape username address hdid).flatMap
          (· ++ " OR ".toList)).length - 4) = start ++ " OR ".toList.intercalate _ := fun start =>
      take_joined hConditions
    rw [hCut]
    exact parse_writes hEngine hEscape (read_search hInert now) (hWrites .start [] rfl)

/-- `Query` finds nothing to replace in the texts of bans, and the engine reads them as values of literals. A ban is
stored under the name that it is looked for with. -/
theorem bans_read_back (hEngine : engine ≠ .sqlServer) (hEscape : Masks engine escape) (username setter : Text)
    (ip hdid now duration later : Int) (address id : Option Int) :
    (∃ query, parseQueryArgs engine escape (banQuery engine escape username ip hdid now duration setter) .start [] =
        some (query, []) ∧
      ((quoting engine).reads .start query).finish = some (banTokens username ip hdid now duration setter)) ∧
    ∀ name format, checkBanQuery engine escape name address id = some format →
      ∃ query, parseQueryArgs engine escape format .start [.int later] = some (query, []) ∧
        ((quoting engine).reads .start query).finish = some (checkBanTokens name address id later) :=
  ⟨ban_reads hEngine hEscape username setter ip hdid now duration,
    fun _ _ hFormat => checkBan_reads hEngine hEscape later hFormat⟩

/-- A ban of one hour, and a search by name and computer. -/
theorem bans_read_back_hour :
    (∃ query, parseQueryArgs .sqlite maskText
        (banQuery .sqlite maskText "o'hara#".toList 2130706433 77 1000 3600 "server".toList) .start [] =
          some (query, []) ∧
      ((quoting .sqlite).reads .start query).finish =
        some (banTokens "o'hara#".toList 2130706433 77 1000 3600 "server".toList)) ∧
    ∃ format, checkBanQuery .sqlite maskText (some "o'hara#".toList) none (some 77) = some format ∧
      ∃ query, parseQueryArgs .sqlite maskText format .start [.int 2000] = some (query, []) ∧
        ((quoting .sqlite).reads .start query).finish =
          some (checkBanTokens (some "o'hara#".toList) none (some 77) 2000) :=
  have hRead := bans_read_back (by decide) (fun _ => rfl) "o'hara#".toList "server".toList 2130706433 77 1000 3600 2000
    none (some 77)
  ⟨hRead.1, _, rfl, hRead.2 _ _ rfl⟩

end Reads

end Etheos.Databases
