import Etheos.General.Tables
import Mathlib.Data.List.Forall2

/-! Queries to an SQLite database. The rows of a query are collected in a member of the
database, by a callback. -/
namespace Etheos.Databases

open General

abbrev ThreadId := Nat

/-- The text of each column. -/
abbrev Row := Table String String

/-- What `sqlite3_exec` does with a query. It hands rows to the callback, also before an error. -/
structure Execution (S : Type*) where
  rows : List (List (Option String × Option String))
  error : Option String
  after : S

inductive Failure where
  | notConnected
  | threadViolation
  | queryFailed (message : String)
  deriving Repr, DecidableEq

/-- The owner is not set before the database is connected. -/
structure Database (S : Type*) where
  connected : Bool
  ownerThread : Option ThreadId
  sqlite : S
  callbackdata : List Row

structure Call where
  thread : ThreadId
  query : String
  deriving Repr, DecidableEq

/-- `insert` leaves the first of two columns of one name. -/
def addField (row : Row) (field : Option String × Option String) : Row :=
  let column := field.1.getD ""
  if column ∈ row then row else row.insert column (field.2.getD "")

def sqliteCallback (fields : List (Option String × Option String)) : Row := fields.foldl addField ∅

variable {S : Type*} (engine : S → String → Execution S)

namespace Database

/-- The checks before the query, and the query. -/
def execute (db : Database S) (call : Call) : Except Failure (Execution S) :=
  if !db.connected then .error .notConnected
  else if db.ownerThread ≠ none ∧ db.ownerThread ≠ some call.thread then .error .threadViolation
  else .ok (engine db.sqlite call.query)

def rawQuery (db : Database S) (call : Call) : Except Failure (List Row) × Database S :=
  match db.execute engine call with
  | .error failure => (.error failure, db)
  | .ok execution =>
      let callbackdata := db.callbackdata ++ execution.rows.map sqliteCallback
      match execution.error with
      | some message => (.error (.queryFailed message), { db with sqlite := execution.after, callbackdata })
      | none => (.ok callbackdata, { db with sqlite := execution.after, callbackdata := [] })

def answers (db : Database S) : List Call → List (Except Failure (List Row))
  | [] => []
  | call :: rest => (db.rawQuery engine call).1 :: answers (db.rawQuery engine call).2 rest

/-- The state of the engine is the same whatever has been collected. -/
def proceed (db : Database S) (call : Call) : Database S :=
  match db.execute engine call with
  | .error _ => db
  | .ok execution => { db with sqlite := execution.after }

def executions (db : Database S) : List Call → List (Except Failure (Execution S))
  | [] => []
  | call :: rest => db.execute engine call :: executions (db.proceed engine call) rest

end Database

namespace Execution

def Succeeds (execution : Except Failure (Execution S)) : Prop := ∃ e, execution = .ok e ∧ e.error = none

/-- The query fails when some rows have been delivered. -/
def Spoils (execution : Except Failure (Execution S)) : Prop :=
  ∃ e, execution = .ok e ∧ e.error ≠ none ∧ e.rows ≠ []

end Execution

/-- A query that succeeds has the rows that were delivered for it. -/
def Own (execution : Except Failure (Execution S)) (answer : Except Failure (List Row)) : Prop :=
  ∀ rows, answer = .ok rows → ∃ e, execution = .ok e ∧ rows = e.rows.map sqliteCallback

def Isolated (db : Database S) (calls : List Call) : Prop :=
  List.Forall₂ Own (db.executions engine calls) (db.answers engine calls)

/-- After a query that failed with some rows delivered no other query succeeds. -/
def Unspoilt (db : Database S) (calls : List Call) : Prop :=
  (db.executions engine calls).Pairwise fun earlier later => Execution.Spoils earlier → ¬Execution.Succeeds later

variable {engine}

namespace Database

variable {db : Database S} {call : Call}

/-- The engine does not see what has been collected. -/
theorem executions_callbackdata (collected : List Row) (calls : List Call) :
    { db with callbackdata := collected }.executions engine calls = db.executions engine calls := by
  induction calls generalizing db with
  | nil => rfl
  | cons call rest ih =>
      have hExecute : { db with callbackdata := collected }.execute engine call = db.execute engine call := rfl
      have hProceed : { db with callbackdata := collected }.proceed engine call =
          { db.proceed engine call with callbackdata := collected } := by
        rw [proceed, proceed, hExecute]
        split <;> rfl
      rw [executions, executions, hExecute, hProceed, ih]

/-- A query goes to the engine once, and else it changes what has been collected. -/
theorem rawQuery_after : (db.rawQuery engine call).2 =
    { db.proceed engine call with callbackdata := (db.rawQuery engine call).2.callbackdata } := by
  unfold rawQuery proceed
  cases hExecute : db.execute engine call with
  | error failure => rfl
  | ok execution => cases hError : execution.error <;> simp [hError]

theorem own_iff : Own (db.execute engine call) (db.rawQuery engine call).1 ↔
    (Execution.Succeeds (db.execute engine call) → db.callbackdata = []) := by
  unfold rawQuery Own Execution.Succeeds
  cases db.execute engine call with
  | error failure => simp
  | ok execution =>
      cases hError : execution.error with
      | some message => simp [hError]
      | none => simp [hError]

theorem collected_of_succeeds (h : Execution.Succeeds (db.execute engine call)) :
    (db.rawQuery engine call).2.callbackdata = [] := by
  obtain ⟨execution, hExecute, hError⟩ := h
  simp [rawQuery, hExecute, hError]

theorem collected_of_fails (h : ¬Execution.Succeeds (db.execute engine call)) :
    (db.rawQuery engine call).2.callbackdata = [] ↔
      db.callbackdata = [] ∧ ¬Execution.Spoils (db.execute engine call) := by
  unfold Execution.Succeeds at h
  unfold rawQuery Execution.Spoils
  cases hExecute : db.execute engine call with
  | error failure => simp
  | ok execution =>
      cases hError : execution.error with
      | some message => simp [hError]
      | none => exact absurd ⟨execution, hExecute, hError⟩ h

end Database

theorem not_spoils_of_succeeds {execution : Except Failure (Execution S)} (h : Execution.Succeeds execution) :
    ¬Execution.Spoils execution := by
  obtain ⟨e, rfl, hError⟩ := h
  rintro ⟨_, hSame, hFails, -⟩
  cases hSame
  exact hFails hError

theorem isolated_from {db : Database S} {calls : List Call} : Isolated engine db calls ↔
    (db.callbackdata = [] ∨ ∀ execution ∈ db.executions engine calls, ¬Execution.Succeeds execution) ∧
      Unspoilt engine db calls := by
  induction calls generalizing db with
  | nil => simp [Isolated, Unspoilt, Database.executions, Database.answers]
  | cons call rest ih =>
      have hAfter : (db.rawQuery engine call).2.executions engine rest =
          (db.proceed engine call).executions engine rest := by
        rw [Database.rawQuery_after, Database.executions_callbackdata]
      have hCons : Isolated engine db (call :: rest) ↔
          Own (db.execute engine call) (db.rawQuery engine call).1 ∧
            Isolated engine (db.rawQuery engine call).2 rest := by
        rw [Isolated, Database.executions, Database.answers, List.forall₂_cons, Isolated, hAfter]
      rw [hCons, ih, Database.own_iff, Unspoilt, Unspoilt, hAfter, Database.executions, List.pairwise_cons,
        List.forall_mem_cons]
      by_cases hSucceeds : Execution.Succeeds (db.execute engine call)
      · have hWhole := not_spoils_of_succeeds hSucceeds
        simp [Database.collected_of_succeeds hSucceeds, hSucceeds, hWhole]
      · rw [Database.collected_of_fails hSucceeds]
        by_cases hSpoils : Execution.Spoils (db.execute engine call)
        · simp only [hSucceeds, hSpoils]
          tauto
        · simp [hSucceeds, hSpoils]

/-- Results are isolated from the first query of a database on. -/
theorem isolated_iff (connected : Bool) (ownerThread : Option ThreadId) (sqlite : S) (calls : List Call) :
    Isolated engine ⟨connected, ownerThread, sqlite, []⟩ calls ↔
      Unspoilt engine ⟨connected, ownerThread, sqlite, []⟩ calls := by
  simp [isolated_from]

/-- An engine that delivers one row and then an error for one query, and one row for any other. -/
def partly (sqlite : Unit) (query : String) : Execution Unit :=
  if query = "SELECT 1; SELEC" then ⟨[[(some "1", some "1")]], some "near \"SELEC\": syntax error", sqlite⟩
  else ⟨[[(some "2", some "2")]], none, sqlite⟩

theorem partly_counterexample :
    ¬∀ calls : List Call, Isolated partly ⟨true, some 0, (), []⟩ calls := by
  intro h
  have hIsolated := h [⟨0, "SELECT 1; SELEC"⟩, ⟨0, "SELECT 2"⟩]
  simp [Isolated, Database.executions, Database.answers, Database.execute, Database.rawQuery, Database.proceed,
    partly, Own] at hIsolated

end Etheos.Databases
