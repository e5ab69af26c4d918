import Etheos.Config.Config
import Etheos.General.Segments

/-! Files of statements, which are read in pieces and executed in one transaction. -/
namespace Etheos.Databases

open General ConfigFiles

inductive Statement where
  | beginTransaction
  | query (text : Bytes)
  | commit
  | rollback
  deriving DecidableEq

/-- How `ExecuteQueries` ends. After `inProgress` nothing has been sent, and `terminated` is the end
of the server. -/
inductive Ending where
  | committed
  | inProgress
  | failed
  | terminated
  deriving Repr, DecidableEq

section Bulk

-- The answer to a statement, after all that has been sent before.
variable (accepts : List Statement → Statement → Bool)

/-- The attempts that are left. -/
def beginTransaction : Nat → List Statement → Bool × List Statement
  | 0, sent => (false, sent)
  | attempts + 1, sent =>
      if accepts sent .beginTransaction then (true, sent ++ [.beginTransaction])
      else beginTransaction attempts (sent ++ [.beginTransaction])

def rawQueries : List Bytes → List Statement → Bool × List Statement
  | [], sent => (true, sent)
  | query :: rest, sent =>
      if accepts sent (.query query) then rawQueries rest (sent ++ [.query query])
      else (false, sent ++ [.query query])

/-- The destructor of `Bulk_Query_Context`, after an exception. -/
def abandon (sent : List Statement) : Ending × List Statement :=
  (if accepts sent .rollback then .failed else .terminated, sent ++ [.rollback])

def executeQueries (inTransaction : Bool) (queries : List Bytes) (sent : List Statement) : Ending × List Statement :=
  if inTransaction then (.inProgress, sent)
  else
    let begun := beginTransaction accepts 10 sent
    if !begun.1 then (.terminated, begun.2)
    else
      let done := rawQueries accepts queries begun.2
      if !done.1 then abandon accepts done.2
      else if accepts done.2 .commit then (.committed, done.2 ++ [.commit])
      else abandon accepts (done.2 ++ [.commit])

end Bulk

section File

/-- `fgets` has come to the end of the file when it has put a piece into `buf` that is neither full nor
a whole line. -/
def feof (buf : Bytes) : Bool := buf.getLast? != some 10 && buf.length < maxLineLength - 1

/-- One piece, up to the first zero byte. -/
def addPiece (s : List Bytes × Bytes) (buf : Bytes) : List Bytes × Bytes :=
  (buf.takeWhile (· ≠ 0)).foldl (Segments.feed 59) s

def readPieces : List Bytes → List Bytes × Bytes → List Bytes × Bytes
  | [], s => s
  | buf :: rest, s => if feof buf then s else readPieces rest (addPiece s buf)

/-- The queries that are left after `remove_if`. -/
def fileQueries (content : Bytes) : List Bytes :=
  (Segments.all (readPieces (fgets (maxLineLength - 1) [] content) ([], []))).filter fun query =>
    !(trim query).length == 0

def executeFile (accepts : List Statement → Statement → Bool) (inTransaction : Bool) (content : Bytes)
    (sent : List Statement) : Ending × List Statement :=
  executeQueries accepts inTransaction (fileQueries content) sent

variable {content : Bytes}

/-- What stands behind the last newline. -/
def lastLine (content : Bytes) : Bytes := (content.reverse.takeWhile (· != 10)).reverse

/-- The last piece, when the file ends before the piece is full. -/
def lost (content : Bytes) : Bytes :=
  (lastLine content).drop ((maxLineLength - 1) * ((lastLine content).length / (maxLineLength - 1)))

def kept (content : Bytes) : Bytes := content.take (content.length - (lost content).length)

theorem flatten_fgets (room : Nat) (buf text : Bytes) : (fgets room buf text).flatten = buf ++ text := by
  induction room, buf, text using fgets.induct with
  | case1 => simp [fgets]
  | case2 => simp [fgets]
  | case3 room buf c rest h ih => simp [fgets, h, ih]
  | case4 room buf c rest h ih => simp [fgets, h, ih]

theorem lastLine_newline (before after : Bytes) : lastLine (before ++ 10 :: after) = lastLine after := by
  have hStops : ∀ xs ys : Bytes, (xs ++ 10 :: ys).takeWhile (· != 10) = xs.takeWhile (· != 10) := by
    intro xs ys
    induction xs with
    | nil => simp
    | cons x xs ih => rw [List.cons_append, List.takeWhile_cons, List.takeWhile_cons, ih]
  rw [lastLine, List.reverse_append, List.reverse_cons, List.append_assoc, List.singleton_append, hStops, lastLine]

theorem lastLine_of_not_mem (h : 10 ∉ content) : lastLine content = content := by
  have hAll : ∀ c ∈ content.reverse, (c != 10) = true := by
    intro c hMem
    simpa using ne_of_mem_of_not_mem (List.mem_reverse.mp hMem) h
  rw [lastLine, List.takeWhile_eq_self_iff.mpr hAll, List.reverse_reverse]

theorem lost_newline (before after : Bytes) : lost (before ++ 10 :: after) = lost after := by
  simp only [lost, lastLine_newline]

/-- A full piece makes no difference to what is lost. -/
theorem lost_full {piece rest : Bytes} (hLength : piece.length = maxLineLength - 1) (hPiece : 10 ∉ piece) :
    lost (piece ++ rest) = lost rest := by
  by_cases hRest : 10 ∈ rest
  · obtain ⟨before, after, rfl⟩ := List.append_of_mem hRest
    rw [← List.append_assoc, lost_newline, lost_newline]
  · have hWhole : 10 ∉ piece ++ rest := by simp [hPiece, hRest]
    have hPieces : (piece ++ rest).length / (maxLineLength - 1) = rest.length / (maxLineLength - 1) + 1 := by
      rw [List.length_append, hLength, Nat.add_comm, Nat.add_div_right _ (by decide)]
    rw [lost, lost, lastLine_of_not_mem hWhole, lastLine_of_not_mem hRest, hPieces, Nat.mul_add, Nat.mul_one,
      Nat.add_comm, ← hLength, List.drop_length_add_append, hLength]

theorem lost_short (hLength : content.length < maxLineLength - 1) (h : 10 ∉ content) : lost content = content := by
  rw [lost, lastLine_of_not_mem h, Nat.div_eq_of_lt hLength, Nat.mul_zero, List.drop_zero]

/-- From the first piece at the end of the file on, nothing is used. -/
theorem flatten_dropWhile_fgets {room : Nat} {buf text : Bytes} (hRoom : buf.length + room = maxLineLength - 1)
    (hSome : 0 < room) (hBuf : 10 ∉ buf) :
    ((fgets room buf text).dropWhile (!feof ·)).flatten = lost (buf ++ text) := by
  induction room, buf, text using fgets.induct with
  | case1 => simp [fgets, lost, lastLine]
  | case2 room buf h =>
      have hShort : buf.length < maxLineLength - 1 := by omega
      have hEnd : feof buf := by
        have hLast : buf.getLast? ≠ some 10 := fun hLast => hBuf (List.mem_of_getLast? hLast)
        simp [feof, hLast, hShort]
      rw [List.append_nil, lost_short hShort hBuf]
      simp [fgets, hEnd]
  | case3 room buf c rest h ih =>
      have hUsed : feof (buf ++ [c]) = false := by
        rcases h with rfl | rfl
        · simp [feof]
        · simp [feof, hRoom]
      have ih := ih (by simp) (by decide) (by simp)
      rw [fgets, if_pos h, List.dropWhile_cons_of_pos (by simp [hUsed]), ih, List.nil_append]
      by_cases hNewline : c = 10
      · rw [hNewline, lost_newline]
      · have hFull : room = 1 := h.resolve_left hNewline
        rw [List.append_cons, lost_full (by simp; omega)]
        simpa [hBuf] using Ne.symm hNewline
  | case4 room buf c rest h ih =>
      obtain ⟨hNewline, hMore⟩ := not_or.mp h
      rw [fgets, if_neg h, ih (by simp; omega) (by omega), List.append_assoc, List.singleton_append]
      simpa [hBuf] using Ne.symm hNewline

theorem kept_eq {front : Bytes} (h : front ++ lost content = content) : kept content = front := by
  have hLength : content.length - (lost content).length = front.length := by
    have := congrArg List.length h
    rw [List.length_append] at this
    omega
  have hTake : (front ++ lost content).take front.length = front := List.take_left
  rw [kept, hLength]
  rwa [h] at hTake

/-- What is used and what is lost are the whole file. -/
theorem flatten_takeWhile_fgets :
    ((fgets (maxLineLength - 1) [] content).takeWhile (!feof ·)).flatten = kept content := by
  have hLost : ((fgets (maxLineLength - 1) [] content).dropWhile (!feof ·)).flatten = lost ([] ++ content) :=
    flatten_dropWhile_fgets (by simp) (by decide) (by simp)
  refine (kept_eq ?_).symm
  rw [List.nil_append] at hLost
  rw [← hLost, ← List.flatten_append, List.takeWhile_append_dropWhile, flatten_fgets, List.nil_append]

theorem readPieces_eq (pieces : List Bytes) (s : List Bytes × Bytes) :
    readPieces pieces s = (pieces.takeWhile (!feof ·)).foldl addPiece s := by
  induction pieces generalizing s with
  | nil => rfl
  | cons buf rest ih =>
      rw [readPieces]
      split
      case isTrue h => simp [h]
      case isFalse h => simp [h, ih]

theorem foldl_addPiece {pieces : List Bytes} (h : 0 ∉ pieces.flatten) (s : List Bytes × Bytes) :
    pieces.foldl addPiece s = pieces.flatten.foldl (Segments.feed 59) s := by
  induction pieces generalizing s with
  | nil => rfl
  | cons buf rest ih =>
      obtain ⟨hBuf, hRest⟩ : 0 ∉ buf ∧ 0 ∉ rest.flatten := by simpa using h
      have hWhole : buf.takeWhile (· ≠ 0) = buf := by
        rw [List.takeWhile_eq_self_iff]
        intro c hMem
        simpa using ne_of_mem_of_not_mem hMem hBuf
      rw [List.foldl_cons, ih hRest, addPiece, hWhole, List.flatten_cons, List.foldl_append]

theorem trim_length (str : Bytes) : ((trim str).length == 0) = str.all blank := by
  have hIff : trim str = [] ↔ str.all blank := by
    constructor
    · intro h
      rw [trim, List.reverse_eq_nil_iff, List.dropWhile_eq_nil_iff] at h
      rw [List.all_eq_true]
      intro c hMem
      rw [← List.takeWhile_append_dropWhile (p := blank) (l := str)] at hMem
      rcases List.mem_append.mp hMem with hTaken | hLeft
      · exact List.mem_takeWhile_imp hTaken
      · exact h c (List.mem_reverse.mpr hLeft)
    · intro h
      rw [List.all_eq_true] at h
      rw [trim, List.dropWhile_eq_nil_iff.mpr h]
      rfl
  rw [Bool.eq_iff_iff, beq_iff_eq, List.length_eq_zero_iff, hIff]

/-- A file without zero bytes. -/
structure TextFile where
  content : Bytes
  noZero : 0 ∉ content

/-- The segments of a file between semicolons. -/
def segments (content : Bytes) : List Bytes := (content.splitOn 59).filter (!·.all blank)

theorem fileQueries_eq (file : TextFile) : fileQueries file.content = segments (kept file.content) := by
  have hKept : 0 ∉ kept file.content := fun hMem => file.noZero (List.mem_of_mem_take hMem)
  rw [← flatten_takeWhile_fgets] at hKept
  rw [fileQueries, readPieces_eq, foldl_addPiece hKept, flatten_takeWhile_fgets, Segments.all_of_start, segments]
  simp only [trim_length]

end File

section Transactions

variable {accepts : List Statement → Statement → Bool}

/-- What is sent is one transaction with the queries in their order, and as much of it as is accepted. -/
structure Executes (accepts : List Statement → Statement → Bool) (queries : List Bytes)
    (result : Ending × List Statement) : Prop where
  committed : result.1 = .committed → ∃ attempts, result.2 =
    List.replicate attempts .beginTransaction ++ queries.map .query ++ [.commit]
  failed : result.1 = .failed → ∃ attempts last, ∃ part, part <+: queries ∧ result.2 =
    List.replicate attempts .beginTransaction ++ part.map .query ++ last ∧
      (last = [.rollback] ∨ part = queries ∧ last = [.commit, .rollback])
  accepted : (∀ sent statement, accepts sent statement) → result.1 = .committed

variable (accepts) in
theorem beginTransaction_sent (attempts : Nat) (sent : List Statement) :
    ∃ used, (beginTransaction accepts attempts sent).2 = sent ++ List.replicate used .beginTransaction := by
  induction attempts generalizing sent with
  | zero => exact ⟨0, by simp [beginTransaction]⟩
  | succ attempts ih =>
      rw [beginTransaction]
      split
      · exact ⟨1, rfl⟩
      · obtain ⟨used, hSent⟩ := ih (sent ++ [.beginTransaction])
        exact ⟨used + 1, by rw [hSent, List.append_assoc, List.singleton_append, List.replicate_succ]⟩

variable (accepts) in
theorem rawQueries_sent (queries : List Bytes) (sent : List Statement) :
    ∃ part, part <+: queries ∧ (rawQueries accepts queries sent).2 = sent ++ part.map .query ∧
      ((rawQueries accepts queries sent).1 → part = queries) := by
  induction queries generalizing sent with
  | nil => exact ⟨[], by simp, by simp [rawQueries], by simp⟩
  | cons query rest ih =>
      rw [rawQueries]
      split
      · obtain ⟨part, hPart, hSent, hDone⟩ := ih (sent ++ [.query query])
        refine ⟨query :: part, List.cons_prefix_cons.mpr ⟨rfl, hPart⟩, ?_, ?_⟩
        · rw [hSent, List.append_assoc, List.singleton_append, List.map_cons]
        · intro h
          rw [hDone h]
      · exact ⟨[query], List.cons_prefix_cons.mpr ⟨rfl, List.nil_prefix⟩, rfl, by simp⟩

theorem rawQueries_accepted (h : ∀ sent statement, accepts sent statement) (queries : List Bytes)
    (sent : List Statement) : rawQueries accepts queries sent = (true, sent ++ queries.map .query) := by
  induction queries generalizing sent with
  | nil => simp [rawQueries]
  | cons query rest ih => simp [rawQueries, h, ih]

/-- All that is sent to a database that accepts everything. -/
theorem executeQueries_accepted (h : ∀ sent statement, accepts sent statement) (queries : List Bytes) :
    executeQueries accepts false queries [] =
      (.committed, .beginTransaction :: queries.map .query ++ [.commit]) := by
  simp [executeQueries, beginTransaction, h, rawQueries_accepted h]

theorem abandon_ne_committed (sent : List Statement) : (abandon accepts sent).1 ≠ .committed := by
  unfold abandon
  split <;> simp

theorem executes_executeQueries (queries : List Bytes) :
    Executes accepts queries (executeQueries accepts false queries []) := by
  obtain ⟨attempts, hBegun⟩ := beginTransaction_sent accepts 10 []
  obtain ⟨part, hPart, hSent, hDone⟩ := rawQueries_sent accepts queries (List.replicate attempts .beginTransaction)
  rw [List.nil_append] at hBegun
  refine ⟨?_, ?_, fun h => by rw [executeQueries_accepted h]⟩
  · intro hCommitted
    refine ⟨attempts, ?_⟩
    simp only [executeQueries, Bool.false_eq_true, ↓reduceIte, hBegun, hSent] at hCommitted ⊢
    split at hCommitted
    case isTrue => cases hCommitted
    case isFalse hFirst =>
      rw [if_neg hFirst]
      split at hCommitted
      case isTrue => exact absurd hCommitted (abandon_ne_committed _)
      case isFalse hAll =>
        rw [if_neg hAll]
        split at hCommitted
        case isTrue hCommit => rw [if_pos hCommit, hDone (by simpa using hAll)]
        case isFalse => exact absurd hCommitted (abandon_ne_committed _)
  · intro hFailed
    simp only [executeQueries, Bool.false_eq_true, ↓reduceIte, hBegun, hSent] at hFailed ⊢
    split at hFailed
    case isTrue => cases hFailed
    case isFalse hFirst =>
      rw [if_neg hFirst]
      split at hFailed
      case isTrue hSome =>
        rw [if_pos hSome]
        exact ⟨attempts, [.rollback], part, hPart, rfl, .inl rfl⟩
      case isFalse hAll =>
        rw [if_neg hAll]
        split at hFailed
        case isTrue => cases hFailed
        case isFalse hCommit =>
          rw [if_neg hCommit]
          refine ⟨attempts, [.commit, .rollback], part, hPart, ?_, .inr ⟨hDone (by simpa using hAll), rfl⟩⟩
          simp [abandon]

/-- The file is executed in one transaction. -/
def ExecutesWhole (content : Bytes) : Prop :=
  ∀ accepts, Executes accepts (segments content) (executeFile accepts false content [])

/-- There is nothing in what is lost: it is blank but for semicolons, and so is the segment that it
goes on with, unless it starts with a semicolon. -/
def NothingLost (content : Bytes) : Prop :=
  (∀ segment ∈ (lost content).splitOn 59, segment.all blank) ∧
    (((lost content).splitOn 59).head? = some [] ∨
      ∀ unfinished ∈ ((kept content).splitOn 59).getLast?, unfinished.all blank)

theorem kept_append_lost : kept content ++ lost content = content := by
  have hSuffix : lost content <:+ content :=
    (List.drop_suffix _ _).trans (List.reverse_prefix.mp (by
      rw [lastLine, List.reverse_reverse]
      exact List.takeWhile_prefix _))
  obtain ⟨front, hFront⟩ := hSuffix
  rw [kept_eq hFront, hFront]

theorem nothingLost_iff : NothingLost content ↔ segments (kept content) = segments content := by
  have hLast : ((kept content).splitOn 59).getLast? =
      some ((kept content).foldl (Segments.feed 59) ([], [])).2 := by
    rw [← Segments.all_of_start, Segments.all, List.getLast?_append]
    rfl
  have hUnseen : segments (kept content) = segments (kept content ++ lost content) ↔ _ :=
    Segments.filter_append_iff
  rw [kept_append_lost] at hUnseen
  rw [hUnseen, NothingLost, Segments.Unseen, hLast]
  simp

/-- The queries among the statements. -/
def queriesOf (sent : List Statement) : List Bytes :=
  sent.filterMap fun
    | .query text => some text
    | _ => none

theorem queriesOf_transaction (attempts : Nat) (queries : List Bytes) :
    queriesOf (List.replicate attempts .beginTransaction ++ queries.map .query ++ [.commit]) = queries := by
  have hBegin : queriesOf (List.replicate attempts .beginTransaction) = [] := by
    simp [queriesOf]
  have hQueries : queriesOf (queries.map .query) = queries := by
    simp [queriesOf, List.filterMap_map]
  have hAppend : ∀ xs ys, queriesOf (xs ++ ys) = queriesOf xs ++ queriesOf ys := by
    simp [queriesOf]
  rw [hAppend, hAppend, hBegin, hQueries, List.nil_append]
  exact List.append_nil queries

theorem ExecutesWhole.queries (h : ExecutesWhole content) : fileQueries content = segments content := by
  obtain ⟨attempts, hSent⟩ := (h fun _ _ => true).committed ((h _).accepted fun _ _ => rfl)
  rw [executeFile, executeQueries_accepted fun _ _ => rfl] at hSent
  have hQueries := congrArg queriesOf hSent
  rw [queriesOf_transaction] at hQueries
  exact (queriesOf_transaction 1 _).symm.trans hQueries

theorem executesWhole_iff (file : TextFile) : ExecutesWhole file.content ↔ NothingLost file.content := by
  rw [nothingLost_iff, ← fileQueries_eq]
  constructor
  · exact ExecutesWhole.queries
  · intro h accepts
    rw [← h]
    exact executes_executeQueries _

/-- The file is `a`, without a newline. -/
theorem a_counterexample : ¬∀ file : TextFile, ExecutesWhole file.content := by
  intro h
  have hQueries := (h ⟨[97], by simp⟩).queries
  revert hQueries
  decide

end Transactions

end Etheos.Databases
