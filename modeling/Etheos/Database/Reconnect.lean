import Etheos.Database.Mysql
import Mathlib.Algebra.Order.Group.Nat
import Mathlib.Data.List.Basic

/-! Lost connections, and what a transaction is behind them. -/
namespace Etheos.Databases

open General

variable {τ : Type*} {env : Server τ}

/-- The login that the members stand for. -/
def Members.own (m : Members) : Login := ⟨m.host, m.port, m.user, m.pass, m.db⟩

/-- There is nothing for the parameters of `Connect` to get wrong. -/
def Login.Blank (login : Login) : Prop := login.user = "" ∧ login.pass = "" ∧ login.db = ""

theorem Members.own_again {m : Members} (h : m.own.Blank) : m.again.own = m.own := by
  obtain ⟨hUser, hPass, hDb⟩ := h
  simp_all [Members.own, Members.again_eq]

theorem Members.againLogin_eq_own_iff {m : Members} : m.againLogin = m.own ↔ m.own.Blank := by
  constructor
  · intro h
    rw [Members.againLogin_eq, Members.own, Login.mk.injEq] at h
    obtain ⟨-, -, hUser, hPass, hDb⟩ := h
    exact ⟨hUser.symm.trans hDb.symm, hPass.symm, hDb.symm⟩
  · rintro ⟨hUser, hPass, hDb⟩
    simp_all [Members.own, Members.againLogin_eq]

namespace Mysql

/-- The outages that are still to come. -/
def losses (s : Mysql τ) : Nat := s.outages.count true

/-- The tables of a transaction are those that its log makes of the stored ones. -/
def Replayable (env : Server τ) (t : Mysql τ) : Prop :=
  if t.inTransaction then
    ∃ tables, t.server.working = some tables ∧
      t.transactionLog.foldlM (fun tables q => env.serve t.selected q tables) t.server.stored = some tables
  else t.server.working = none

/-- A database whose connection may be lost beside one without outages. -/
structure Tracks (own : Login) (t s : Mysql τ) : Prop where
  login : s.members.own = own
  inTransaction : s.inTransaction = t.inTransaction
  transactionLog : s.transactionLog = t.transactionLog
  stored : s.server.stored = t.server.stored
  logins : ∀ login ∈ s.logins, login = own

/-- The connection is there, and both have the same tables. -/
structure Agrees (own : Login) (t s : Mysql τ) : Prop extends Tracks own t s where
  server : s.server = t.server
  connected : s.connected = true
  selected : s.selected = t.selected

/-- What an attempt comes to. -/
structure Attempt (env : Server τ) (own : Login) (t s : Mysql τ) (r : Answer × Mysql τ) : Prop where
  failed : r.1 ≠ .failed
  lost : r.1 = .lost → Tracks own t r.2
  ok : r.1 = .ok → Agrees own t r.2
  losses : r.2.losses ≤ s.losses
  fewer : r.1 = .lost → env.accepts own → r.2.losses < s.losses

variable {own : Login} {t s next : Mysql τ} {q : Query}

theorem losses_tail (h : s.outages.head? = some true) : (s.outages.tail).count true + 1 = s.losses := by
  cases hOutages : s.outages with
  | nil => simp [hOutages] at h
  | cons first rest =>
      rw [hOutages, List.head?_cons, Option.some_inj] at h
      simp [losses, hOutages, h]

theorem losses_tail_le : (s.outages.tail).count true ≤ s.losses :=
  (List.tail_sublist _).count_le _

variable (env) in
theorem Tracks.realQuery_lost (h : Tracks own t s) (hLost : s.outages.head? = some true) (q : Query) :
    ∃ lost, s.realQuery env q = (.lost, lost) ∧ Tracks own t lost ∧ lost.losses < s.losses := by
  refine ⟨_, Mysql.realQuery_lost hLost, ⟨h.login, h.inTransaction, h.transactionLog, h.stored, h.logins⟩, ?_⟩
  exact Nat.lt_of_succ_le (losses_tail hLost).le

theorem Attempt.of_lost {lost : Mysql τ} (h : Tracks own t lost) (hFewer : lost.losses < s.losses) :
    Attempt env own t s (.lost, lost) :=
  ⟨by simp, fun _ => h, by simp, hFewer.le, fun _ _ => hFewer⟩

theorem Attempt.mono {before : Mysql τ} {r : Answer × Mysql τ} (h : Attempt env own t s r)
    (hLosses : s.losses ≤ before.losses) : Attempt env own t before r :=
  ⟨h.failed, h.lost, h.ok, h.losses.trans hLosses, fun hLost hAccepts => (h.fewer hLost hAccepts).trans_le hLosses⟩

theorem replay_attempt {tables done : τ} (log : List String) (hTracks : Tracks own t s)
    (hServer : s.server = ⟨t.server.stored, some tables⟩) (hConnected : s.connected = true)
    (hSelected : s.selected = t.selected)
    (hLog : log.foldlM (fun tables q => env.serve t.selected q tables) tables = some done)
    (hDone : t.server = ⟨t.server.stored, some done⟩) : Attempt env own t s (s.replay env log) := by
  induction log generalizing s tables with
  | nil =>
      obtain rfl : tables = done := Option.some_inj.mp hLog
      exact ⟨by simp [replay], by simp [replay], fun _ => ⟨hTracks, hServer.trans hDone.symm, hConnected, hSelected⟩,
        le_refl _, by simp [replay]⟩
  | cons q rest ih =>
      rw [List.foldlM_cons] at hLog
      obtain ⟨after, hAfter, hRest⟩ := Option.bind_eq_some_iff.mp hLog
      rw [replay]
      by_cases hHead : s.outages.head? = some true
      · obtain ⟨lost, hLost, hBroken, hFewer⟩ := hTracks.realQuery_lost env hHead (.sql q)
        rw [hLost]
        exact .of_lost hBroken hFewer
      · have hReply : reply env s.selected s.server (.sql q) = (true, ⟨t.server.stored, some after⟩) := by
          simp [reply, hServer, hSelected, hAfter, Connection.exec]
        rw [realQuery_ok hHead hReply]
        have hNext := ih (s := { s with outages := s.outages.tail, server := ⟨t.server.stored, some after⟩ })
          ⟨hTracks.login, hTracks.inTransaction, hTracks.transactionLog, rfl, hTracks.logins⟩ rfl hConnected
          hSelected hRest
        exact hNext.mono losses_tail_le

/-- The same login is tried again when it is blank. -/
theorem Tracks.reconnect (h : Tracks own t s) (hBlank : own.Blank) : Tracks own t (s.reconnect env) := by
  have hOwn : s.members.own.Blank := by rwa [h.login]
  refine ⟨(Members.own_again hOwn).trans h.login, h.inTransaction, h.transactionLog, h.stored, ?_⟩
  intro login hMem
  rcases List.mem_append.mp hMem with hOld | hNew
  · exact h.logins login hOld
  · rw [List.mem_singleton.mp hNew, Members.againLogin_eq_own_iff.mpr hOwn, h.login]

theorem tryAgain_attempt (h : Tracks own t s) (hBlank : own.Blank) (hReplay : Replayable env t)
    (hSelected : t.selected = own.db) : Attempt env own t s (s.tryAgain env) := by
  have hOwn : s.members.own.Blank := by rwa [h.login]
  have hLogin : s.members.againLogin = own := (Members.againLogin_eq_own_iff.mpr hOwn).trans h.login
  have hAgain : Tracks own t (s.reconnect env) := h.reconnect hBlank
  have hLosses : (s.reconnect env).losses ≤ s.losses := losses_tail_le
  have hDb : (s.reconnect env).selected = t.selected := by
    rw [hSelected, ← hLogin]
    rfl
  unfold tryAgain
  dsimp only
  by_cases hConnected : (s.reconnect env).connected = true
  · rw [if_neg (by simp [hConnected])]
    by_cases hOpen : t.inTransaction = true
    · rw [if_pos (by rw [hAgain.inTransaction, hOpen])]
      rw [Replayable, if_pos hOpen] at hReplay
      obtain ⟨done, hDone, hLog⟩ := hReplay
      by_cases hHead : (s.reconnect env).outages.head? = some true
      · obtain ⟨lost, hLost, hBroken, hFewer⟩ := hAgain.realQuery_lost env hHead .startTransaction
        rw [hLost]
        exact (Attempt.of_lost hBroken hFewer).mono hLosses
      · rw [realQuery_ok hHead rfl]
        have hLog' : (s.reconnect env).transactionLog.foldlM (fun tables q => env.serve t.selected q tables)
            t.server.stored = some done := by
          rwa [hAgain.transactionLog]
        have hServer : (s.reconnect env).server.begin = ⟨t.server.stored, some t.server.stored⟩ := by
          simp [Connection.begin, Mysql.reconnect, Connection.rollback, h.stored]
        have hNext : Attempt env own t _ _ := replay_attempt (s.reconnect env).transactionLog
          (s := { s.reconnect env with
            outages := (s.reconnect env).outages.tail, server := (s.reconnect env).server.begin })
          ⟨hAgain.login, hAgain.inTransaction, hAgain.transactionLog, hAgain.stored, hAgain.logins⟩ hServer hConnected
          hDb hLog' (by rw [← hDone])
        exact hNext.mono (losses_tail_le.trans hLosses)
    · rw [if_neg (by rw [hAgain.inTransaction]; exact hOpen)]
      rw [Replayable, if_neg hOpen] at hReplay
      have hServer : (s.reconnect env).server = t.server := by
        simp only [Mysql.reconnect, Connection.rollback, h.stored, ← hReplay]
      exact ⟨by simp, by simp, fun _ => ⟨hAgain, hServer, hConnected, hDb⟩, hLosses, by simp⟩
  · rw [if_pos (by simpa using hConnected)]
    refine ⟨by simp, fun _ => hAgain, by simp, hLosses, fun _ hAccepts => ?_⟩
    have hHead : s.outages.head? = some true := by
      by_contra hHead
      refine hConnected ?_
      simp [Mysql.reconnect, hHead, hLogin, hAccepts]
    exact Nat.lt_of_succ_le (losses_tail hHead).le

/-- What the attempts come to together. After the last one the server is halted. -/
structure Recovers (env : Server τ) (own : Login) (t s : Mysql τ) (attempts : Nat)
    (r : Except (Mysql τ) (Mysql τ)) : Prop where
  ok : ∀ next, r = .ok next → Agrees own t next ∧ next.losses ≤ s.losses
  error : ∀ next, r = .error next → Tracks own t next ∧ (env.accepts own → attempts ≤ s.losses)

theorem recover_recovers (attempts : Nat) (h : Tracks own t s) (hBlank : own.Blank) (hReplay : Replayable env t)
    (hSelected : t.selected = own.db) : Recovers env own t s attempts (s.recover env attempts) := by
  induction attempts generalizing s with
  | zero =>
      refine ⟨fun next hNext => (by cases hNext), fun next hNext => ?_⟩
      cases hNext
      exact ⟨h, fun _ => Nat.zero_le _⟩
  | succ attempts ih =>
      have hAttempt := tryAgain_attempt h hBlank hReplay hSelected
      rw [recover]
      cases hTry : s.tryAgain env with
      | mk answer next =>
          rw [hTry] at hAttempt
          cases answer with
          | ok =>
              refine ⟨fun done hDone => ?_, fun done hDone => (by cases hDone)⟩
              cases hDone
              exact ⟨hAttempt.ok rfl, hAttempt.losses⟩
          | failed => exact absurd rfl hAttempt.failed
          | lost =>
              have hRest := ih (hAttempt.lost rfl)
              refine ⟨fun done hDone => ?_, fun done hDone => ?_⟩
              · obtain ⟨hAgrees, hLosses⟩ := hRest.ok done hDone
                exact ⟨hAgrees, hLosses.trans hAttempt.losses⟩
              · obtain ⟨hTracks, hAll⟩ := hRest.error done hDone
                exact ⟨hTracks, fun hAccepts =>
                  Nat.succ_le_of_lt ((hAll hAccepts).trans_lt (hAttempt.fewer rfl hAccepts))⟩

section Exec

theorem exec_calm (h : s.outages.head? ≠ some true) : s.exec env q =
    if (reply env s.selected s.server q).1 then
      .returned (note q { s with outages := s.outages.tail, server := (reply env s.selected s.server q).2 })
    else .thrown { s with outages := s.outages.tail, server := (reply env s.selected s.server q).2 } := by
  have hCalm : s.realQuery env q = _ := realQuery_calm h
  split
  case isTrue hReply =>
    rw [if_pos hReply] at hCalm
    exact exec_of_ok hCalm
  case isFalse hReply =>
    rw [if_neg hReply] at hCalm
    exact exec_of_failed hCalm

/-- A result beside that without outages. -/
inductive Follows (env : Server τ) (own : Login) (losses : Nat) : Outcome τ → Outcome τ → Prop
  | returned {s t : Mysql τ} (h : Agrees own t s) (hLosses : s.losses ≤ losses) :
      Follows env own losses (.returned s) (.returned t)
  | thrown {s t : Mysql τ} (h : Agrees own t s) (hLosses : s.losses ≤ losses) :
      Follows env own losses (.thrown s) (.thrown t)
  | halted {s : Mysql τ} {r : Outcome τ} (h : ∀ login ∈ s.logins, login = own)
      (hLosses : env.accepts own → 10 < losses) : Follows env own losses (.halted s) r

theorem Follows.mono {losses more : Nat} {r r' : Outcome τ} (h : Follows env own losses r r')
    (hMore : losses ≤ more) : Follows env own more r r' := by
  cases h with
  | returned h hLosses => exact .returned h (hLosses.trans hMore)
  | thrown h hLosses => exact .thrown h (hLosses.trans hMore)
  | halted h hLosses => exact .halted h fun hAccepts => (hLosses hAccepts).trans_le hMore

theorem note_eq (s : Mysql τ) (q : Query) : ∃ more, note q s =
    { s with transactionLog := s.transactionLog ++ more } ∧
      ∀ s' : Mysql τ, s'.inTransaction = s.inTransaction →
        note q s' = { s' with transactionLog := s'.transactionLog ++ more } := by
  cases q with
  | sql text =>
      by_cases h : s.inTransaction ∧ ¬text.startsWith "SELECT"
      · exact ⟨[text], if_pos h, fun s' hSame => if_pos (by rwa [hSame])⟩
      · refine ⟨[], ?_, fun s' hSame => ?_⟩
        · rw [note, if_neg h, List.append_nil]
        · rw [note, if_neg (by rwa [hSame]), List.append_nil]
  | _ => exact ⟨[], by simp [note], fun s' _ => by simp [note]⟩

theorem Agrees.note (h : Agrees own t s) (q : Query) : Agrees own (Mysql.note q t) (Mysql.note q s) := by
  obtain ⟨more, hNote, hOther⟩ := note_eq t q
  rw [hNote, hOther s h.inTransaction, h.transactionLog]
  exact ⟨⟨h.login, h.inTransaction, rfl, h.stored, h.logins⟩, h.server, h.connected, h.selected⟩

theorem losses_note : (note q s).losses = s.losses := by
  obtain ⟨more, hNote, -⟩ := note_eq s q
  rw [hNote]
  rfl

/-- A query behind a lost connection finds what it would have found without the loss. -/
theorem exec_follows (h : Agrees own t s) (hSafe : own.Blank ∨ s.outages.head? ≠ some true) (hReplay : Replayable env t)
    (hSelected : t.selected = own.db) (hOutages : t.outages = []) (q : Query) :
    Follows env own s.losses (s.exec env q) (t.exec env q) := by
  induction hLength : s.outages.length using Nat.strong_induction_on generalizing s with
  | h n ih =>
      subst hLength
      by_cases hHead : s.outages.head? = some true
      · have hBlank : own.Blank := hSafe.resolve_right (not_not_intro hHead)
        have hBroken : Tracks own t { s with outages := s.outages.tail, server := s.server.rollback } :=
          ⟨h.login, h.inTransaction, h.transactionLog, h.stored, h.logins⟩
        have hRecovers := recover_recovers 10 hBroken hBlank hReplay hSelected
        have hFirst : s.outages.tail.count true + 1 = s.losses := losses_tail hHead
        rw [exec_of_lost (realQuery_lost hHead)]
        split
        case h_1 next hNext =>
          obtain ⟨hTracks, hAll⟩ := hRecovers.error next hNext
          refine .halted hTracks.logins fun hAccepts => ?_
          rw [← hFirst]
          exact Nat.lt_succ_of_le (hAll hAccepts)
        case h_2 next hNext =>
          obtain ⟨hAgrees, hLosses⟩ := hRecovers.ok next hNext
          have hShorter : next.outages.length < s.outages.length := by
            refine Nat.lt_of_le_of_lt (outages_recover hNext) ?_
            exact outages_lost (realQuery_lost hHead : s.realQuery env q = _)
          have hRest : Follows env own next.losses (next.exec env q) (t.exec env q) :=
            ih _ hShorter hAgrees (.inl hBlank) rfl
          exact hRest.mono (hLosses.trans (hFirst ▸ Nat.le_succ _))
      · have hCalm : t.outages.head? ≠ some true := by simp [hOutages]
        have hAnswered : Agrees own { t with outages := t.outages.tail, server := (reply env t.selected t.server q).2 }
            { s with outages := s.outages.tail, server := (reply env t.selected t.server q).2 } :=
          ⟨⟨h.login, h.inTransaction, h.transactionLog, rfl, h.logins⟩, rfl, h.connected, h.selected⟩
        have hReply : reply env s.selected s.server q = reply env t.selected t.server q := by
          rw [h.selected, h.server]
        rw [exec_calm hHead, exec_calm hCalm, hReply]
        split
        · exact .returned (hAnswered.note q) (losses_note.trans_le losses_tail_le)
        · exact .thrown hAnswered losses_tail_le

end Exec

section Runs

/-- What holds of a database without outages, in and out of a transaction. -/
structure Steady (env : Server τ) (own : Login) (t : Mysql τ) : Prop where
  outages : t.outages = []
  connected : t.connected = true
  selected : t.selected = own.db
  replayable : Replayable env t

/-- No connection is lost in as many calls, or it does not matter. -/
def Safe (own : Login) (calls : Nat) (s : Mysql τ) : Prop := own.Blank ∨ true ∉ s.outages.take calls

theorem Safe.head {calls : Nat} (h : Safe own (calls + 1) s) : own.Blank ∨ s.outages.head? ≠ some true := by
  refine h.imp_right fun hCalm hHead => hCalm ?_
  obtain ⟨rest, hRest⟩ := List.head?_eq_some_iff.mp hHead
  simp [hRest]

/-- A query without a loss takes one of the calls, and changes neither the members nor the logins. -/
theorem exec_calm_next (h : s.outages.head? ≠ some true)
    (hNext : s.exec env q = .returned next ∨ s.exec env q = .thrown next) :
    next.outages = s.outages.tail ∧ next.members = s.members ∧ next.logins = s.logins ∧
      next.connected = s.connected ∧ next.inTransaction = s.inTransaction := by
  rw [exec_calm h] at hNext
  split at hNext
  · rcases hNext with hNext | hNext
    · obtain ⟨more, hNote, -⟩ := note_eq
        { s with outages := s.outages.tail, server := (reply env s.selected s.server q).2 } q
      rw [hNote] at hNext
      cases hNext
      exact ⟨rfl, rfl, rfl, rfl, rfl⟩
    · cases hNext
  · rcases hNext with hNext | hNext
    · cases hNext
    · cases hNext
      exact ⟨rfl, rfl, rfl, rfl, rfl⟩

theorem mem_take_tail {α : Type*} {a : α} {l : List α} {n : Nat} (h : a ∈ l.tail.take n) : a ∈ l.take (n + 1) := by
  cases l with
  | nil => simp at h
  | cons first rest => exact List.mem_cons_of_mem _ h

theorem Safe.exec {calls : Nat} (h : Safe own (calls + 1) s)
    (hNext : s.exec env q = .returned next ∨ s.exec env q = .thrown next) : Safe own calls next := by
  by_cases hBlank : own.Blank
  · exact .inl hBlank
  · obtain ⟨hTail, -⟩ := exec_calm_next (h.head.resolve_left hBlank) hNext
    refine .inr fun hMem => h.resolve_left hBlank (mem_take_tail ?_)
    rwa [hTail] at hMem

/-- The log makes the tables of a transaction also behind one more statement. -/
theorem Steady.exec_sql (h : Steady env own t) (hOpen : t.inTransaction = true)
    (hSelect : env.Reads)
    (q : String) : ∃ t', (t.exec env (.sql q) = .returned t' ∨ t.exec env (.sql q) = .thrown t') ∧
      Steady env own t' ∧ t'.inTransaction = true := by
  have hReplay := h.replayable
  rw [Replayable, if_pos hOpen] at hReplay
  obtain ⟨tables, hTables, hLog⟩ := hReplay
  have hCalm : t.outages.head? ≠ some true := by simp [h.outages]
  rw [exec_calm hCalm]
  cases hServe : env.serve t.selected q tables with
  | none => 
      have hReply : reply env t.selected t.server (.sql q) = (false, t.server) := by
        simp [reply, hTables, hServe]
      rw [hReply, if_neg (by simp)]
      refine ⟨_, .inr rfl, ⟨by simp [h.outages], h.connected, h.selected, ?_⟩, hOpen⟩
      rw [Replayable, if_pos hOpen]
      exact ⟨tables, hTables, hLog⟩
  | some after =>
      have hReply : reply env t.selected t.server (.sql q) = (true, ⟨t.server.stored, some after⟩) := by
        simp [reply, hTables, hServe, Connection.exec]
      rw [hReply, if_pos rfl]
      refine ⟨_, .inl rfl, ?_⟩
      unfold note
      dsimp only
      split
      · refine ⟨⟨by simp [h.outages], h.connected, h.selected, ?_⟩, hOpen⟩
        rw [Replayable, if_pos hOpen]
        refine ⟨after, rfl, ?_⟩
        simp [List.foldlM_append, hLog, hServe]
      case isFalse hNote => 
        have hRead : q.startsWith "SELECT" := by
          by_contra hOther
          exact hNote ⟨hOpen, hOther⟩
        obtain rfl := hSelect _ _ _ _ hRead hServe
        refine ⟨⟨by simp [h.outages], h.connected, h.selected, ?_⟩, hOpen⟩
        rw [Replayable, if_pos hOpen]
        exact ⟨_, rfl, hLog⟩

/-- The run from a state on is that without outages, unless the server is halted. -/
structure Same (env : Server τ) (own : Login) (losses : Nat) (r r' : List (Bool × Connection τ) × Outcome τ) :
    Prop where
  logins : ∀ login ∈ r.2.state.logins, login = own
  same : ∀ s, r.2 = .returned s → r.1 = r'.1 ∧ ∃ t, r'.2 = .returned t ∧ s.server = t.server
  returns : env.accepts own → losses ≤ 10 → ∃ s, r.2 = .returned s

theorem Same.of_halted {losses : Nat} {halted : Mysql τ} {seen : List (Bool × Connection τ)}
    {r' : List (Bool × Connection τ) × Outcome τ} (h : ∀ login ∈ halted.logins, login = own)
    (hLosses : env.accepts own → 10 < losses) : Same env own losses (seen, .halted halted) r' :=
  ⟨h, fun _ hReturned => (by cases hReturned), fun hAccepts hFew => absurd (hLosses hAccepts) (not_lt_of_ge hFew)⟩

theorem Same.cons {losses more : Nat} {r r' : List (Bool × Connection τ) × Outcome τ} (h : Same env own losses r r')
    (hMore : losses ≤ more) (first : Bool × Connection τ) :
    Same env own more (first :: r.1, r.2) (first :: r'.1, r'.2) := by
  refine ⟨h.logins, fun s hReturned => ?_, fun hAccepts hFew => h.returns hAccepts (hMore.trans hFew)⟩
  obtain ⟨hSeen, hServer⟩ := h.same s hReturned
  exact ⟨congrArg (first :: ·) hSeen, hServer⟩

theorem finish_same (queries : List String) (h : Agrees own t s) (hSteady : Steady env own t)
    (hOpen : t.inTransaction = true) (hSelect : env.Reads) (hSafe : Safe own (queries.length + 1) s) :
    Same env own s.losses (s.finish env queries) (t.finish env queries) := by
  induction queries generalizing s t with
  | nil =>
      have hFollows := exec_follows h hSafe.head hSteady.replayable hSteady.selected hSteady.outages .commit
      have hCalm : t.outages.head? ≠ some true := by simp [hSteady.outages]
      have hCommit : t.exec env .commit = _ := exec_calm hCalm
      rw [reply, if_pos rfl] at hCommit
      rw [hCommit] at hFollows
      rw [finish, finish, commitTransaction, commitTransaction, if_pos (by rw [h.inTransaction, hOpen]), if_pos hOpen,
        rawQuery, rawQuery, if_pos h.connected, if_pos hSteady.connected, hCommit]
      cases hExec : s.exec env .commit with
      | returned next =>
          rw [hExec] at hFollows
          cases hFollows with
          | returned hNext _ => 
              refine ⟨hNext.logins, fun s' hReturned => ?_, fun _ _ => ⟨_, rfl⟩⟩
              cases hReturned
              exact ⟨rfl, _, rfl, hNext.server⟩
      | thrown next =>
          rw [hExec] at hFollows
          cases hFollows
      | halted next =>
          rw [hExec] at hFollows
          cases hFollows with
          | halted hLogins hLosses => exact .of_halted hLogins hLosses
  | cons q rest ih =>
      have hFollows := exec_follows h hSafe.head hSteady.replayable hSteady.selected hSteady.outages (.sql q)
      obtain ⟨t', hExec', hSteady', hOpen'⟩ := hSteady.exec_sql hOpen hSelect q
      rw [finish, finish, rawQuery, rawQuery, if_pos h.connected, if_pos hSteady.connected]
      cases hExec : s.exec env (.sql q) with
      | returned next =>
          rw [hExec] at hFollows
          rcases hExec' with hExec' | hExec'
          · rw [hExec'] at hFollows ⊢
            cases hFollows with
            | returned hNext hLosses =>
                dsimp only
                rw [hNext.server]
                exact (ih hNext hSteady' hOpen' (hSafe.exec (.inl hExec))).cons hLosses _
          · rw [hExec'] at hFollows
            cases hFollows
      | thrown next =>
          rw [hExec] at hFollows
          rcases hExec' with hExec' | hExec'
          · rw [hExec'] at hFollows
            cases hFollows
          · rw [hExec'] at hFollows ⊢
            cases hFollows with
            | thrown hNext hLosses =>
                dsimp only
                rw [hNext.server]
                exact (ih hNext hSteady' hOpen' (hSafe.exec (.inr hExec))).cons hLosses _
      | halted next =>
          rw [hExec] at hFollows
          cases hFollows with
          | halted hLogins hLosses => exact .of_halted hLogins hLosses

end Runs

section Logins

/-- The comparison also holds over a new connection, and does not look at what a transaction notes. -/
structure Lasts (env : Server τ) (R : Mysql τ → Mysql τ → Prop) : Prop extends Calls env R where
  reconnect : ∀ s, R s (s.reconnect env)
  flags : ∀ (s : Mysql τ) (inTransaction : Bool) (log : List String),
    R s { s with inTransaction := inTransaction, transactionLog := log }

namespace Lasts

variable {R : Mysql τ → Mysql τ → Prop} (h : Lasts env R)

include h

theorem note (q : Query) (s : Mysql τ) : R s (Mysql.note q s) := by
  obtain ⟨more, hNote, -⟩ := note_eq s q
  rw [hNote]
  exact h.flags s s.inTransaction _

theorem exec (q : Query) (s : Mysql τ) : R s (s.exec env q).state := by
  induction hLength : s.outages.length using Nat.strong_induction_on generalizing s with
  | h n ih =>
      subst hLength
      have hAsked : R s (s.realQuery env q).2 := h.query q s
      by_cases hHead : s.outages.head? = some true
      · rw [realQuery_lost hHead] at hAsked
        have hRecover := h.trans hAsked (h.recover h.reconnect 10 _)
        rw [exec_of_lost (realQuery_lost hHead)]
        split
        case h_1 next hNext =>
          rw [hNext] at hRecover
          exact hRecover
        case h_2 next hNext =>
          have hShorter : next.outages.length < s.outages.length :=
            Nat.lt_of_le_of_lt (outages_recover hNext) (outages_lost (realQuery_lost hHead : s.realQuery env q = _))
          rw [hNext] at hRecover
          exact h.trans hRecover (ih _ hShorter next rfl)
      · rw [realQuery_calm hHead] at hAsked
        rw [exec_calm hHead]
        split
        · exact h.trans hAsked (h.note q _)
        · exact hAsked

theorem exec_recovered (hLost : s.realQuery env q = (.lost, next)) :
    R (exceptState (next.recover env 10)) (s.exec env q).state := by
  rw [exec_of_lost hLost]
  split
  case h_1 halted hHalted =>
    rw [hHalted]
    exact h.refl _
  case h_2 done hDone =>
    rw [hDone]
    exact h.exec q done

theorem rawQuery (q : Query) (s : Mysql τ) : R s (s.rawQuery env q).state := by
  unfold Mysql.rawQuery
  split
  · exact h.exec q s
  · exact h.refl s

theorem commit (hOpen : s.inTransaction = true) :
    R (s.rawQuery env .commit).state (s.commitTransaction env).state := by
  rw [commitTransaction, if_pos hOpen]
  split
  case h_1 next hNext =>
    rw [hNext]
    exact h.flags next false []
  case h_2 => exact h.refl _

theorem finish (queries : List String) (s : Mysql τ) : R s (s.finish env queries).2.state := by
  induction queries generalizing s with
  | nil =>
      by_cases hOpen : s.inTransaction = true
      · exact h.trans (h.rawQuery .commit s) (h.commit hOpen)
      · rw [Mysql.finish, commitTransaction, if_neg hOpen]
        exact h.refl s
  | cons q rest ih =>
      have hFirst : R s (s.rawQuery env (.sql q)).state := h.rawQuery _ s
      unfold Mysql.finish
      split
      case h_1 next hNext =>
        rw [hNext] at hFirst
        exact h.trans hFirst (ih next)
      case h_2 next hNext =>
        rw [hNext] at hFirst
        exact h.trans hFirst (ih next)
      case h_3 next hNext =>
        rw [hNext] at hFirst
        exact hFirst

theorem finish_cons (q : String) (rest : List String) (s : Mysql τ) :
    R (s.rawQuery env (.sql q)).state (s.finish env (q :: rest)).2.state := by
  rw [Mysql.finish]
  split
  case h_1 next hNext =>
    rw [hNext]
    exact h.finish rest next
  case h_2 next hNext =>
    rw [hNext]
    exact h.finish rest next
  case h_3 next hNext =>
    rw [hNext]
    exact h.refl _

theorem begin (attempts : Nat) (s : Mysql τ) : R s (s.beginTransaction env attempts).state := by
  induction attempts generalizing s with
  | zero => exact h.refl s
  | succ attempts ih =>
      have hFirst : R s (s.rawQuery env .startTransaction).state := h.rawQuery _ s
      unfold beginTransaction
      split
      case h_1 next hNext =>
        rw [hNext] at hFirst
        exact h.trans hFirst (h.flags next true next.transactionLog)
      case h_2 next hNext =>
        rw [hNext] at hFirst
        exact h.trans hFirst (ih next)
      case h_3 next hNext =>
        rw [hNext] at hFirst
        exact hFirst

theorem begin_succ (attempts : Nat) (s : Mysql τ) :
    R (s.rawQuery env .startTransaction).state (s.beginTransaction env (attempts + 1)).state := by
  rw [beginTransaction]
  split
  case h_1 next hNext =>
    rw [hNext]
    exact h.flags next true next.transactionLog
  case h_2 next hNext =>
    rw [hNext]
    exact h.begin attempts next
  case h_3 next hNext =>
    rw [hNext]
    exact h.refl _

end Lasts

/-- No login is forgotten. -/
theorem lasts_logins : Lasts env fun s t => s.logins ⊆ t.logins where
  refl _ := List.Subset.refl _
  trans := List.Subset.trans
  query q s := by
    unfold realQuery
    split <;> exact List.Subset.refl _
  reconnect _ := List.subset_append_left _ _
  flags _ _ _ := List.Subset.refl _

/-- An attempt is a login with what `Connect` makes of the members. -/
theorem exec_lost_login (h : s.outages.head? = some true) (q : Query) :
    s.members.againLogin ∈ (s.exec env q).state.logins := by
  apply lasts_logins.exec_recovered (realQuery_lost h)
  apply lasts_logins.recover_attempt lasts_logins.reconnect 9
  apply lasts_logins.attempt
  simp [reconnect]

theorem head_or_tail {l : List Bool} {n : Nat} (h : true ∈ l.take (n + 1)) :
    l.head? = some true ∨ l.head? ≠ some true ∧ true ∈ l.tail.take n := by
  cases l with
  | nil => simp at h
  | cons first rest =>
      by_cases hFirst : first = true
      · exact .inl (congrArg some hFirst)
      · refine .inr ⟨by simpa using hFirst, ?_⟩
        rw [List.take_succ_cons] at h
        exact (List.mem_cons.mp h).resolve_left (Ne.symm hFirst)

/-- The first loss among the statements brings the login of the members that there are then. -/
theorem finish_lost_login (queries : List String) (hConnected : s.connected = true) (hOpen : s.inTransaction = true)
    (hLost : true ∈ s.outages.take (queries.length + 1)) :
    s.members.againLogin ∈ (s.finish env queries).2.state.logins := by
  induction queries generalizing s with
  | nil =>
      have hHead : s.outages.head? = some true := by
        rcases head_or_tail hLost with hHead | ⟨-, hNone⟩
        · exact hHead
        · simp at hNone
      have hLogin : s.members.againLogin ∈ (s.rawQuery env .commit).state.logins := by
        rw [rawQuery, if_pos hConnected]
        exact exec_lost_login hHead .commit
      exact lasts_logins.commit hOpen hLogin
  | cons q rest ih =>
      have hQuery : s.rawQuery env (.sql q) = s.exec env (.sql q) := if_pos hConnected
      rcases head_or_tail hLost with hHead | ⟨hHead, hLater⟩
      · apply lasts_logins.finish_cons q rest s
        rw [hQuery]
        exact exec_lost_login hHead _
      · rw [finish, hQuery]
        cases hExec : s.exec env (.sql q) with
        | returned next =>
            obtain ⟨hTail, hMembers, -, hStill, hIn⟩ := exec_calm_next hHead (.inl hExec)
            rw [← hMembers]
            exact ih (by rw [hStill, hConnected]) (by rw [hIn, hOpen]) (by rwa [hTail])
        | thrown next =>
            obtain ⟨hTail, hMembers, -, hStill, hIn⟩ := exec_calm_next hHead (.inr hExec)
            rw [← hMembers]
            exact ih (by rw [hStill, hConnected]) (by rw [hIn, hOpen]) (by rwa [hTail])
        | halted next =>
            rw [exec_calm hHead] at hExec
            split at hExec <;> cases hExec

end Logins

end Mysql

section Transparency

variable {login : Login} {authtype : String} {stored : τ} {outages : List Bool} {queries : List String}

/-- Every login of the run is the one that the database was opened with. Unless the server is halted,
each statement has the answer and leaves the tables that it does without outages, and so does `Commit`.
Ten lost connections do not halt the server while the login is accepted. -/
def Transparent (env : Server τ) (login : Login) (authtype : String) (stored : τ) (outages : List Bool)
    (queries : List String) : Prop :=
  Mysql.Same env login (outages.count true) ((opened login authtype stored outages).transaction env queries)
    ((opened login authtype stored []).transaction env queries)

theorem opened_agrees : Mysql.Agrees login (opened login authtype stored []) (opened login authtype stored outages) :=
  ⟨⟨rfl, rfl, rfl, rfl, by simp [opened]⟩, rfl, rfl, rfl⟩

theorem opened_steady : Mysql.Steady env login (opened login authtype stored []) :=
  ⟨rfl, rfl, rfl, rfl⟩

theorem transaction_of_returned {s next : Mysql τ} (hConnected : s.connected = true)
    (h : s.exec env .startTransaction = .returned next) :
    s.transaction env queries = Mysql.finish env queries { next with inTransaction := true } := by
  rw [Mysql.transaction, Mysql.beginTransaction, Mysql.rawQuery, if_pos hConnected, h]

theorem transaction_of_halted {s next : Mysql τ} (hConnected : s.connected = true)
    (h : s.exec env .startTransaction = .halted next) : s.transaction env queries = ([], .halted next) := by
  rw [Mysql.transaction, Mysql.beginTransaction, Mysql.rawQuery, if_pos hConnected, h]

/-- The transaction has begun, and nothing has been done in it. -/
def begun (login : Login) (authtype : String) (stored : τ) : Mysql τ :=
  { opened login authtype stored [] with server := ⟨stored, some stored⟩, inTransaction := true }

theorem transparent_of_safe (hSelect : env.Reads)
    (hSafe : Mysql.Safe login (queries.length + 2) (opened login authtype stored outages)) :
    Transparent env login authtype stored outages queries := by
  have hBegin : (opened login authtype stored []).exec env .startTransaction =
      .returned { opened login authtype stored [] with server := ⟨stored, some stored⟩ } := by
    rw [Mysql.exec_calm (by simp [opened])]
    rfl
  have hFollows : Mysql.Follows env login _ ((opened login authtype stored outages).exec env .startTransaction)
      ((opened login authtype stored []).exec env .startTransaction) :=
    Mysql.exec_follows opened_agrees hSafe.head opened_steady.replayable rfl rfl _
  rw [hBegin] at hFollows
  rw [Transparent, transaction_of_returned rfl hBegin]
  cases hExec : (opened login authtype stored outages).exec env .startTransaction with
  | returned next =>
      rw [hExec] at hFollows
      cases hFollows with
      | returned hNext hLosses =>
          have hSafe' : Mysql.Safe login (queries.length + 1) next := hSafe.exec (.inl hExec)
          have hAgrees : Mysql.Agrees login (begun login authtype stored) { next with inTransaction := true } :=
            ⟨⟨hNext.login, rfl, hNext.transactionLog, hNext.stored, hNext.logins⟩, hNext.server, hNext.connected,
              hNext.selected⟩
          have hSteady : Mysql.Steady env login (begun login authtype stored) := ⟨rfl, rfl, rfl, stored, rfl, rfl⟩
          rw [transaction_of_returned rfl hExec]
          have hSame := Mysql.finish_same queries hAgrees hSteady rfl hSelect hSafe'
          exact ⟨hSame.logins, hSame.same, fun hAccepts hFew => hSame.returns hAccepts (hLosses.trans hFew)⟩
  | thrown next =>
      rw [hExec] at hFollows
      cases hFollows
  | halted next =>
      rw [hExec] at hFollows
      rw [transaction_of_halted rfl hExec]
      cases hFollows with
      | halted hLogins hLosses => exact .of_halted hLogins hLosses

theorem logins_transaction {s : Mysql τ} :
    (s.beginTransaction env 10).state.logins ⊆ (s.transaction env queries).2.state.logins := by
  rw [Mysql.transaction]
  split
  case h_1 next hNext =>
    rw [hNext]
    exact Mysql.lasts_logins.finish queries _
  case h_2 => exact List.Subset.refl _

/-- The first loss of a run brings a login with what `Connect` makes of the members. -/
theorem transaction_lost_login (hLost : true ∈ outages.take (queries.length + 2)) :
    (opened login authtype stored outages).members.againLogin ∈
      ((opened login authtype stored outages).transaction env queries).2.state.logins := by
  rcases Mysql.head_or_tail hLost with hHead | ⟨hHead, hLater⟩
  · have hFirst : (opened login authtype stored outages).members.againLogin ∈
        ((opened login authtype stored outages).rawQuery env .startTransaction).state.logins :=
      Mysql.exec_lost_login hHead .startTransaction
    exact logins_transaction (Mysql.lasts_logins.begin_succ 9 _ hFirst)
  · have hBegin : (opened login authtype stored outages).exec env .startTransaction = _ := Mysql.exec_calm hHead
    rw [reply, if_pos rfl] at hBegin
    rw [transaction_of_returned rfl hBegin]
    exact Mysql.finish_lost_login queries rfl rfl hLater

theorem transparent_iff (hSelect : env.Reads) : Transparent env login authtype stored outages queries ↔
    true ∉ outages.take (queries.length + 2) ∨ login.Blank := by
  constructor
  · intro h
    by_cases hLost : true ∈ outages.take (queries.length + 2)
    · have hLogin := h.logins _ (transaction_lost_login hLost)
      exact .inr (Members.againLogin_eq_own_iff.mp hLogin)
    · exact .inl hLost
  · intro h
    exact transparent_of_safe hSelect h.symm

/-- A server with one table of numbers, where every statement but `SELECT` adds one. -/
def adding : Server Nat where
  accepts _ := true
  serve _ q n := some (if q.startsWith "SELECT" then n else n + 1)

theorem reads_adding : adding.Reads := by
  intro db q tables after hSelect hServe
  simp only [adding, hSelect, if_true, Option.some_inj] at hServe
  exact hServe.symm

/-- A connection that is never lost, and a blank login whose connection is lost at every second call. -/
theorem transparent_adding : Transparent adding ⟨"localhost", 3306, "etheos", "pass", "etheos"⟩ "" 0 [] ["UPDATE"] ∧
    Transparent adding ⟨"localhost", 3306, "", "", ""⟩ "" 0 [false, true, false, true] ["UPDATE", "SELECT"] :=
  ⟨(transparent_iff reads_adding).mpr (.inl (by simp)), (transparent_iff reads_adding).mpr (.inr ⟨rfl, rfl, rfl⟩)⟩

theorem lost_counterexample : ¬∀ (login : Login) (authtype : String) (stored : Nat) (outages : List Bool)
    (queries : List String), Transparent adding login authtype stored outages queries := by
  intro h
  have hLogin := (h ⟨"localhost", 3306, "etheos", "pass", "etheos"⟩ "" 0 [false, true] ["UPDATE"]).logins _
    (transaction_lost_login (by decide))
  revert hLogin
  decide

end Transparency

end Etheos.Databases
