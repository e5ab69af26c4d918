import Etheos.General.Transaction
import Mathlib.Data.List.Basic
import Mathlib.Order.Basic

/-! Queries to a MySQL server whose connection may be lost, and how they are made again. -/
namespace Etheos.Databases

open General

/-- What the server is asked for when a client connects. Without a `db` none is selected. -/
structure Login where
  host : String
  port : Nat
  user : String
  pass : String
  db : String
  deriving Repr, DecidableEq

structure Members where
  host : String
  authtype : String
  user : String
  pass : String
  db : String
  port : Nat
  deriving Repr, DecidableEq

/-- What a parameter of `Connect` refers to. -/
inductive Ref where
  | thisHost
  | thisUser
  | thisPass
  | thisDb
  | temporary (text : String)
  deriving Repr, DecidableEq

namespace Members

variable (m : Members)

def get : Ref → String
  | .thisHost => m.host
  | .thisUser => m.user
  | .thisPass => m.pass
  | .thisDb => m.db
  | .temporary text => text

/-- The assignments of `Connect`, one after the other. -/
def assign (host authtype user pass db : Ref) (port : Nat) : Members :=
  let m := { m with host := m.get host }
  let m := { m with authtype := m.get authtype }
  let m := { m with user := m.get user }
  let m := { m with pass := m.get pass }
  let m := { m with port := port }
  { m with db := m.get db }

/-- The parameters of `Connect` behind the assignments. -/
def login (host user pass db : Ref) : Login := ⟨m.get host, m.port, m.get user, m.get pass, m.get db⟩

/-- `Connect(this->engine, this->host, this->port, this->user, this->pass, this->db)`. The
parameters of `Connect` are the host, the port, the type of authentication, the user, the password
and the database. -/
def again : Members := m.assign .thisHost .thisUser .thisPass .thisDb (.temporary "") m.port

def againLogin : Login := m.again.login .thisHost .thisPass .thisDb (.temporary "")

theorem again_eq : m.again = ⟨m.host, m.user, m.pass, m.db, "", m.port⟩ := rfl

theorem againLogin_eq : m.againLogin = ⟨m.host, m.port, m.db, "", ""⟩ := rfl

end Members

/-- The statements that control transactions, and the others. -/
inductive Query where
  | startTransaction
  | commit
  | rollback
  | sql (text : String)
  deriving Repr, DecidableEq

/-- The server. A statement that fails has no tables after it. -/
structure Server (τ : Type*) where
  accepts : Login → Bool
  serve : String → String → τ → Option τ

variable {τ : Type*}

/-- A `SELECT` changes nothing. -/
def Server.Reads (env : Server τ) : Prop :=
  ∀ db q tables after, q.startsWith "SELECT" → env.serve db q tables = some after → after = tables

/-- For each call to the server, `outages` says whether the connection is lost. -/
structure Mysql (τ : Type*) where
  members : Members
  connected : Bool
  inTransaction : Bool
  transactionLog : List String
  server : Connection τ
  selected : String
  outages : List Bool
  logins : List Login

inductive Answer where
  | ok
  | failed
  | lost
  deriving Repr, DecidableEq

/-- `halted` is the end of the server. -/
inductive Outcome (τ : Type*) where
  | returned (s : Mysql τ)
  | thrown (s : Mysql τ)
  | halted (s : Mysql τ)

variable (env : Server τ)

/-- What the server makes of a statement, and whether it succeeds. -/
def reply (db : String) (c : Connection τ) : Query → Bool × Connection τ
  | .startTransaction => (true, c.begin)
  | .commit => (true, c.commit)
  | .rollback => (true, c.rollback)
  | .sql text =>
      match env.serve db text (c.working.getD c.stored) with
      | some tables => (true, c.exec fun _ => tables)
      | none => (false, c)

namespace Mysql

/-- `mysql_real_query`. A lost connection discards the open transaction. -/
def realQuery (q : Query) (s : Mysql τ) : Answer × Mysql τ :=
  if s.outages.head? = some true then
    (.lost, { s with outages := s.outages.tail, server := s.server.rollback })
  else
    let r := reply env s.selected s.server q
    (if r.1 then .ok else .failed, { s with outages := s.outages.tail, server := r.2 })

/-- `Close` and `Connect`, which may throw `Database_OpenFailed`. -/
def reconnect (s : Mysql τ) : Mysql τ :=
  let login := s.members.againLogin
  { s with
    members := s.members.again
    connected := s.outages.head? ≠ some true && env.accepts login
    server := s.server.rollback
    selected := login.db
    outages := s.outages.tail
    logins := s.logins ++ [login] }

def replay : List String → Mysql τ → Answer × Mysql τ
  | [], s => (.ok, s)
  | q :: rest, s =>
      match s.realQuery env (.sql q) with
      | (.ok, s) => replay rest s
      | r => r

/-- One attempt of `server_gone`. -/
def tryAgain (s : Mysql τ) : Answer × Mysql τ :=
  let s := s.reconnect env
  if !s.connected then (.lost, s)
  else if s.inTransaction then
    match s.realQuery env .startTransaction with
    | (.ok, s) => s.replay env s.transactionLog
    | r => r
  else (.ok, s)

/-- `server_gone`, with the attempts that are left. -/
def recover : Nat → Mysql τ → Except (Mysql τ) (Mysql τ)
  | 0, s => .error s
  | attempts + 1, s =>
      match s.tryAgain env with
      | (.lost, s) => recover attempts s
      | (.failed, s) => .error s
      | (.ok, s) => .ok s

/-- The statements that are not control ones and do not start with `SELECT` are noted. -/
def note (q : Query) (s : Mysql τ) : Mysql τ :=
  match q with
  | .sql text =>
      if s.inTransaction ∧ ¬text.startsWith "SELECT" then { s with transactionLog := s.transactionLog ++ [text] }
      else s
  | _ => s

variable {env} {s next : Mysql τ} {q : Query}

theorem realQuery_lost (h : s.outages.head? = some true) :
    s.realQuery env q = (.lost, { s with outages := s.outages.tail, server := s.server.rollback }) := by
  rw [realQuery, if_pos h]

theorem realQuery_calm (h : s.outages.head? ≠ some true) :
    s.realQuery env q = (if (reply env s.selected s.server q).1 then .ok else .failed,
      { s with outages := s.outages.tail, server := (reply env s.selected s.server q).2 }) := by
  rw [realQuery, if_neg h]

theorem realQuery_ok {c : Connection τ} (h : s.outages.head? ≠ some true)
    (hReply : reply env s.selected s.server q = (true, c)) :
    s.realQuery env q = (.ok, { s with outages := s.outages.tail, server := c }) := by
  rw [realQuery_calm h, hReply]
  rfl

def exceptState : Except (Mysql τ) (Mysql τ) → Mysql τ
  | .ok s => s
  | .error s => s

/-- A comparison of what is with what was, in which no statement goes back. -/
structure Calls (env : Server τ) (R : Mysql τ → Mysql τ → Prop) : Prop where
  refl : ∀ s, R s s
  trans : ∀ {s t u}, R s t → R t u → R s u
  query : ∀ q s, R s (s.realQuery env q).2

section Calls

variable {R : Mysql τ → Mysql τ → Prop} (h : Calls env R)

include h

theorem Calls.replay (log : List String) (s : Mysql τ) : R s (s.replay env log).2 := by
  induction log generalizing s with
  | nil => exact h.refl s
  | cons q rest ih =>
      have hFirst : R s (s.realQuery env (.sql q)).2 := h.query _ s
      unfold Mysql.replay
      split
      case h_1 next hNext =>
        rw [hNext] at hFirst
        exact h.trans hFirst (ih next)
      case h_2 => exact hFirst

/-- Behind the login, an attempt makes statements only. -/
theorem Calls.attempt (s : Mysql τ) : R (s.reconnect env) (s.tryAgain env).2 := by
  have hStart : R (s.reconnect env) ((s.reconnect env).realQuery env .startTransaction).2 := h.query _ _
  unfold tryAgain
  dsimp only
  split
  · exact h.refl _
  · split
    · split
      case h_1 next hNext =>
        rw [hNext] at hStart
        exact h.trans hStart (h.replay _ _)
      case h_2 => exact hStart
    · exact h.refl _

variable (hReconnect : ∀ s : Mysql τ, R s (s.reconnect env))

include hReconnect

theorem Calls.recover (attempts : Nat) (s : Mysql τ) : R s (exceptState (s.recover env attempts)) := by
  induction attempts generalizing s with
  | zero => exact h.refl s
  | succ attempts ih =>
      have hFirst : R s (s.tryAgain env).2 := h.trans (hReconnect s) (h.attempt s)
      unfold Mysql.recover
      split
      case h_1 lost hLost =>
        rw [hLost] at hFirst
        exact h.trans hFirst (ih lost)
      case h_2 failed hFailed =>
        rw [hFailed] at hFirst
        exact hFirst
      case h_3 done hDone =>
        rw [hDone] at hFirst
        exact hFirst

theorem Calls.recover_attempt (attempts : Nat) (s : Mysql τ) :
    R (s.tryAgain env).2 (exceptState (s.recover env (attempts + 1))) := by
  unfold Mysql.recover
  split
  case h_1 lost hLost =>
    rw [hLost]
    exact h.recover hReconnect attempts lost
  case h_2 failed hFailed =>
    rw [hFailed]
    exact h.refl _
  case h_3 done hDone =>
    rw [hDone]
    exact h.refl _

end Calls

/-- No outages are added. -/
theorem calls_outages : Calls env fun s t => t.outages.length ≤ s.outages.length where
  refl _ := Nat.le_refl _
  trans h h' := Nat.le_trans h' h
  query q s := by
    unfold realQuery
    split <;> simp

theorem outages_recover {attempts : Nat} (h : s.recover env attempts = .ok next) :
    next.outages.length ≤ s.outages.length := by
  have hRecover : (exceptState (s.recover env attempts)).outages.length ≤ s.outages.length :=
    calls_outages.recover (fun s => by simp [reconnect]) attempts s
  rwa [h] at hRecover

/-- A lost connection takes an outage. -/
theorem outages_lost (h : s.realQuery env q = (.lost, next)) : next.outages.length < s.outages.length := by
  by_cases hHead : s.outages.head? = some true
  · rw [realQuery_lost hHead] at h
    cases h
    cases hOutages : s.outages with
    | nil => simp [hOutages] at hHead
    | cons first rest => simp
  · rw [realQuery_calm hHead] at h
    have hAnswer := congrArg Prod.fst h
    split at hAnswer <;> cases hAnswer

variable (env)

/-- `exec_query` -/
def exec (q : Query) (s : Mysql τ) : Outcome τ :=
  match _hQuery : s.realQuery env q with
  | (.ok, s) => .returned (s.note q)
  | (.failed, s) => .thrown s
  | (.lost, lost) =>
      match _hRecover : lost.recover env 10 with
      | .error s => .halted s
      | .ok s => s.exec q
termination_by s.outages.length
decreasing_by exact Nat.lt_of_le_of_lt (outages_recover _hRecover) (outages_lost _hQuery)

variable {env} in
theorem exec_of_ok (h : s.realQuery env q = (.ok, next)) : s.exec env q = .returned (next.note q) := by
  rw [exec]
  split
  case h_1 hSame =>
    rw [h] at hSame
    cases hSame
    rfl
  case h_2 hSame => exact absurd (h.symm.trans hSame) (by simp)
  case h_3 hSame => exact absurd (h.symm.trans hSame) (by simp)

variable {env} in
theorem exec_of_failed (h : s.realQuery env q = (.failed, next)) : s.exec env q = .thrown next := by
  rw [exec]
  split
  case h_1 hSame => exact absurd (h.symm.trans hSame) (by simp)
  case h_2 hSame =>
    rw [h] at hSame
    cases hSame
    rfl
  case h_3 hSame => exact absurd (h.symm.trans hSame) (by simp)

variable {env} in
theorem exec_of_lost (h : s.realQuery env q = (.lost, next)) : s.exec env q =
    match next.recover env 10 with
    | .error s => .halted s
    | .ok s => s.exec env q := by
  rw [exec]
  split
  case h_1 hSame => exact absurd (h.symm.trans hSame) (by simp)
  case h_2 hSame => exact absurd (h.symm.trans hSame) (by simp)
  case h_3 hSame =>
    rw [h] at hSame
    cases hSame
    split <;> simp_all

def rawQuery (q : Query) (s : Mysql τ) : Outcome τ := if s.connected then s.exec env q else .thrown s

/-- The attempts that are left. After them the server is halted. -/
def beginTransaction : Nat → Mysql τ → Outcome τ
  | 0, s => .halted s
  | attempts + 1, s =>
      match s.rawQuery env .startTransaction with
      | .returned s => .returned { s with inTransaction := true }
      | .thrown s => beginTransaction attempts s
      | .halted s => .halted s

def commitTransaction (s : Mysql τ) : Outcome τ :=
  if s.inTransaction then
    match s.rawQuery env .commit with
    | .returned s => .returned { s with inTransaction := false, transactionLog := [] }
    | r => r
  else .thrown s

/-- Statements and `Commit`. The caller sees for each statement whether it threw, and the tables
behind it. -/
def finish : List String → Mysql τ → List (Bool × Connection τ) × Outcome τ
  | [], s => ([], s.commitTransaction env)
  | q :: rest, s =>
      match s.rawQuery env (.sql q) with
      | .returned s => ((true, s.server) :: (finish rest s).1, (finish rest s).2)
      | .thrown s => ((false, s.server) :: (finish rest s).1, (finish rest s).2)
      | .halted s => ([], .halted s)

/-- The statements in one transaction. -/
def transaction (queries : List String) (s : Mysql τ) : List (Bool × Connection τ) × Outcome τ :=
  match s.beginTransaction env 10 with
  | .returned s => s.finish env queries
  | r => ([], r)

end Mysql

/-- A database behind `Connect`, whose tables are `stored`. -/
def opened (login : Login) (authtype : String) (stored : τ) (outages : List Bool) : Mysql τ where
  members := (⟨"", "", "", "", "", 0⟩ : Members).assign (.temporary login.host) (.temporary authtype)
    (.temporary login.user) (.temporary login.pass) (.temporary login.db) login.port
  connected := true
  inTransaction := false
  transactionLog := []
  server := ⟨stored, none⟩
  selected := login.db
  outages := outages
  logins := []

def Outcome.state : Outcome τ → Mysql τ
  | .returned s => s
  | .thrown s => s
  | .halted s => s

end Etheos.Databases
