import Etheos.General.Run

/-! The thread pool: its workers, and those who queue work or set the number of threads. Each
section under the lock of the queue or of the semaphore is one step. -/
namespace Etheos.ThreadPools

open General

/-- `size_t`. -/
def sizes : Nat := 2 ^ 64

structure Semaphore where
  count : Nat
  maxCount : Nat
  deriving DecidableEq

namespace Semaphore

def wait (s : Semaphore) : Option Semaphore :=
  if 0 < s.count then some { s with count := s.count - 1 } else none

def release (s : Semaphore) (count : Nat) : Semaphore :=
  let sum := (s.count + count) % sizes
  { s with count := if s.maxCount ≤ sum then s.maxCount else sum }

def reset (count : Nat) : Semaphore := ⟨count, sizes - 1⟩

end Semaphore

section Model

variable {Work : Type*}

/-- Where a worker is in `_workerProc`. -/
inductive Worker (Work : Type*)
  | looping
  | waiting
  | woken
  | popping
  | working (item : Work)
  | ended
  deriving DecidableEq

/-- A worker that has passed `Wait`, and has not popped yet. -/
def Worker.passed : Worker Work → Bool
  | .woken | .popping => true
  | _ => false

def Worker.hasEnded : Worker Work → Bool
  | .ended => true
  | _ => false

/-- Where a call of `Queue` or `SetNumThreads` is. -/
inductive Caller (Work : Type*)
  | queueing (item : Work)
  | sized (numWorkers : Nat)
  | resizing (numWorkers : Nat)
  deriving DecidableEq

/-- The call of `SetNumThreads` that is `joining` has the lock of the queue. -/
structure ThreadPool (Work : Type*) where
  terminating : Bool
  workReady : Semaphore
  work : List Work
  threads : List (Worker Work)
  callers : List (Caller Work)
  joining : Option Nat
  deriving DecidableEq

/-- The number of threads that is used where another one is asked for. -/
def threadsFor (numThreads : Nat) : Nat := if numThreads = 0 ∨ 32 < numThreads then 4 else numThreads

namespace ThreadPool

/-- The constructor. -/
def start (numThreads : Nat) : ThreadPool Work where
  terminating := false
  workReady := .reset 0
  work := []
  threads := .replicate (threadsFor numThreads) .looping
  callers := []
  joining := none

variable (s : ThreadPool Work)

def passed : Nat := s.threads.countP (·.passed)

def setThread (i : Nat) (worker : Worker Work) : ThreadPool Work := { s with threads := s.threads.set i worker }

/-- `_workerProc`, which can only pop while nobody else has the lock. -/
def workerProc (i : Nat) : Worker Work → Option (ThreadPool Work)
  | .looping => some (s.setThread i (if s.terminating then .ended else .waiting))
  | .waiting => s.workReady.wait.map fun workReady => { s.setThread i .woken with workReady }
  | .woken => some (s.setThread i (if s.terminating then .ended else .popping))
  | .popping =>
      if s.joining.isSome then none
      else
        match s.work with
        | [] => none
        | item :: work => some { s.setThread i (.working item) with work }
  | .working _ => some (s.setThread i .looping)
  | .ended => none

/-- The beginning of `queueInternal`, which may throw. -/
def queue (item : Work) : ThreadPool Work :=
  if s.terminating then s else { s with callers := s.callers ++ [.queueing item] }

/-- The beginning of `setNumThreadsInternal`. -/
def setNumThreads (numThreads : Nat) : ThreadPool Work :=
  if threadsFor numThreads = s.threads.length then s
  else { s with callers := s.callers ++ [.sized (threadsFor numThreads)] }

def resize (numWorkers : Nat) : ThreadPool Work :=
  if numWorkers < s.threads.length then
    { s with
      work := []
      terminating := true
      workReady := s.workReady.release s.threads.length
      joining := some numWorkers }
  else
    { s with
      workReady := .reset 0
      threads := s.threads ++ .replicate (numWorkers - s.threads.length) .looping }

/-- The rest of a call. -/
def call (i : Nat) : Caller Work → Option (ThreadPool Work)
  | .queueing item =>
      if s.joining.isSome then none
      else some { s with
        work := s.work ++ [item]
        workReady := s.workReady.release 1
        callers := s.callers.eraseIdx i }
  | .sized numWorkers =>
      if s.terminating then some { s with callers := s.callers.eraseIdx i }
      else some { s with callers := s.callers.set i (.resizing numWorkers) }
  | .resizing numWorkers =>
      if s.joining.isSome then none
      else some { s.resize numWorkers with callers := s.callers.eraseIdx i }

/-- All threads have been joined. -/
def joined (numWorkers : Nat) : ThreadPool Work :=
  { s with
    terminating := false
    workReady := .reset 0
    threads := .replicate numWorkers .looping
    joining := none }

end ThreadPool

inductive Event (Work : Type*)
  | queue (item : Work)
  | setNumThreads (numThreads : Nat)
  | caller (i : Nat)
  | join
  | worker (i : Nat)

def step (s : ThreadPool Work) : Event Work → Option (ThreadPool Work)
  | .queue item => some (s.queue item)
  | .setNumThreads numThreads => some (s.setNumThreads numThreads)
  | .caller i => s.callers[i]?.bind (s.call i)
  | .join => s.joining.bind fun numWorkers =>
      if s.threads.all (·.hasEnded) then some (s.joined numWorkers) else none
  | .worker i => s.threads[i]?.bind (s.workerProc i)

section Invariant

variable {s next : ThreadPool Work}

/-- The workers can pop all that is queued. -/
structure Balanced (s : ThreadPool Work) : Prop where
  running : s.terminating = false
  free : s.joining = none
  threads : s.threads ≠ []
  alive : ∀ worker ∈ s.threads, worker.hasEnded = false
  maxCount : s.workReady.maxCount = sizes - 1
  count : s.workReady.count ≤ s.workReady.maxCount
  work : s.work.length = s.workReady.count + s.passed

/-- The threads are joined, and nothing is queued. -/
structure Joining (s : ThreadPool Work) (numWorkers : Nat) : Prop where
  terminating : s.terminating = true
  joining : s.joining = some numWorkers
  some : numWorkers ≠ 0
  work : s.work = []

/-- Nobody asks for no threads at all. -/
def Asked (callers : List (Caller Work)) : Prop :=
  ∀ caller ∈ callers, ∀ numWorkers, caller = .sized numWorkers ∨ caller = .resizing numWorkers → numWorkers ≠ 0

structure Inv (s : ThreadPool Work) : Prop where
  state : Balanced s ∨ ∃ numWorkers, Joining s numWorkers
  asked : Asked s.callers

theorem Inv.withCallers (h : Inv s) {callers : List (Caller Work)} (hAsked : Asked callers) :
    Inv { s with callers } := by
  refine ⟨?_, hAsked⟩
  obtain hBalanced | ⟨numWorkers, hJoining⟩ := h.state
  · exact .inl ⟨hBalanced.running, hBalanced.free, hBalanced.threads, hBalanced.alive, hBalanced.maxCount,
      hBalanced.count, hBalanced.work⟩
  · exact .inr ⟨numWorkers, hJoining.terminating, hJoining.joining, hJoining.some, hJoining.work⟩

theorem threadsFor_ne_zero (numThreads : Nat) : threadsFor numThreads ≠ 0 := by
  unfold threadsFor
  split
  · decide
  · omega

theorem passed_setThread {i : Nat} {worker : Worker Work} (h : s.threads[i]? = some worker) (after : Worker Work) :
    (s.setThread i after).passed + worker.passed.toNat = s.passed + after.passed.toNat := by
  obtain ⟨hLength, rfl⟩ := List.getElem?_eq_some_iff.mp h
  have hSet : (s.setThread i after).passed = _ := List.countP_set (p := Worker.passed) (a := after) hLength
  have hLe : (if s.threads[i].passed then 1 else 0) ≤ s.passed := List.boole_getElem_le_countP hLength
  rw [hSet]
  change s.passed - _ + _ + _ = _
  cases hBefore : s.threads[i].passed with
  | false =>
      cases hAfter : after.passed with
      | false => simp
      | true => simp
  | true =>
      rw [hBefore, if_pos rfl] at hLe
      cases hAfter : after.passed with
      | false => simp; omega
      | true => simp; omega

theorem Balanced.setThread (h : Balanced s) {i : Nat} {worker after : Worker Work} {workReady : Semaphore}
    {work : List Work} (hWorker : s.threads[i]? = some worker) (hAlive : after.hasEnded = false)
    (hMax : workReady.maxCount = s.workReady.maxCount) (hCount : workReady.count ≤ s.workReady.count)
    (hWork : work.length + s.workReady.count + worker.passed.toNat =
      s.work.length + workReady.count + after.passed.toNat) :
    Balanced { s.setThread i after with workReady, work } where
  running := h.running
  free := h.free
  threads hNone := h.threads ((List.set_eq_nil_iff i after).mp hNone)
  alive other hOther := by
    obtain hOld | rfl := List.mem_or_eq_of_mem_set hOther
    · exact h.alive other hOld
    · exact hAlive
  maxCount := hMax.trans h.maxCount
  count := by
    rw [hMax]
    exact Nat.le_trans hCount h.count
  work := by
    have hPassed := passed_setThread hWorker after
    have hBefore := h.work
    show work.length = workReady.count + (s.setThread i after).passed
    omega

theorem workerProc_callers {i : Nat} {worker : Worker Work} (hStep : s.workerProc i worker = some next) :
    next.callers = s.callers ∧ next.joining = s.joining ∧ next.terminating = s.terminating := by
  cases worker with
  | looping | woken | working item =>
      obtain rfl := Option.some.inj hStep
      exact ⟨rfl, rfl, rfl⟩
  | waiting =>
      obtain ⟨workReady, -, rfl⟩ := Option.map_eq_some_iff.mp hStep
      exact ⟨rfl, rfl, rfl⟩
  | popping =>
      dsimp only [ThreadPool.workerProc] at hStep
      split at hStep
      · cases hStep
      · split at hStep
        · cases hStep
        · obtain rfl := Option.some.inj hStep
          exact ⟨rfl, rfl, rfl⟩
  | ended => cases hStep

theorem wait_eq_some {workReady : Semaphore} (h : s.workReady.wait = some workReady) :
    workReady.maxCount = s.workReady.maxCount ∧ workReady.count + 1 = s.workReady.count := by
  unfold Semaphore.wait at h
  split at h
  case isTrue hPositive =>
    obtain rfl := Option.some.inj h
    exact ⟨rfl, Nat.sub_add_cancel hPositive⟩
  case isFalse => cases h

theorem workerProc_balanced (h : Balanced s) {i : Nat} {worker : Worker Work} (hWorker : s.threads[i]? = some worker)
    (hStep : s.workerProc i worker = some next) : Balanced next := by
  have hRunning := h.running
  cases worker with
  | looping =>
      obtain rfl := Option.some.inj hStep
      rw [hRunning]
      exact h.setThread hWorker rfl rfl (Nat.le_refl _) rfl
  | waiting =>
      obtain ⟨workReady, hWait, rfl⟩ := Option.map_eq_some_iff.mp hStep
      obtain ⟨hMax, hCount⟩ := wait_eq_some hWait
      refine h.setThread hWorker rfl hMax (by omega) ?_
      show s.work.length + s.workReady.count + 0 = s.work.length + workReady.count + 1
      omega
  | woken =>
      obtain rfl := Option.some.inj hStep
      rw [hRunning]
      exact h.setThread hWorker rfl rfl (Nat.le_refl _) rfl
  | popping =>
      dsimp only [ThreadPool.workerProc] at hStep
      rw [h.free] at hStep
      dsimp only [Option.isSome_none] at hStep
      cases hWork : s.work with
      | nil =>
          rw [hWork] at hStep
          cases hStep
      | cons item work =>
          rw [hWork] at hStep
          obtain rfl := Option.some.inj hStep
          refine h.setThread hWorker rfl rfl (Nat.le_refl _) ?_
          show work.length + s.workReady.count + 1 = s.work.length + s.workReady.count + 0
          rw [hWork, List.length_cons]
          omega
  | working item =>
      obtain rfl := Option.some.inj hStep
      exact h.setThread hWorker rfl rfl (Nat.le_refl _) rfl
  | ended => cases hStep

theorem workerProc_work {i : Nat} {worker : Worker Work} (hJoining : s.joining.isSome = true)
    (hStep : s.workerProc i worker = some next) : next.work = s.work := by
  cases worker with
  | looping | woken | working item =>
      obtain rfl := Option.some.inj hStep
      rfl
  | waiting =>
      obtain ⟨workReady, -, rfl⟩ := Option.map_eq_some_iff.mp hStep
      rfl
  | popping =>
      dsimp only [ThreadPool.workerProc] at hStep
      rw [if_pos hJoining] at hStep
      cases hStep
  | ended => cases hStep

/-- The steps that leave work behind: the number of threads grows while there is work that no
worker knows of, or the count of the semaphore starts again. -/
def Strands (s : ThreadPool Work) : Event Work → Prop
  | .caller i =>
      match s.callers[i]? with
      | some (.resizing numWorkers) => s.threads.length ≤ numWorkers ∧ 0 < s.workReady.count
      | some (.queueing _) => s.workReady.count = sizes - 1
      | _ => False
  | _ => False

theorem release_one {workReady : Semaphore} (hMax : workReady.maxCount = sizes - 1)
    (hCount : workReady.count < workReady.maxCount) :
    workReady.release 1 = { workReady with count := workReady.count + 1 } := by
  have hSum : (workReady.count + 1) % sizes = workReady.count + 1 := Nat.mod_eq_of_lt (by omega)
  unfold Semaphore.release
  dsimp only
  rw [hSum]
  split
  case isTrue hFull =>
    rw [Nat.le_antisymm hFull hCount]
  case isFalse => rfl

theorem balanced_queueing (h : Balanced s) (item : Work) (callers : List (Caller Work))
    (hRoom : s.workReady.count ≠ sizes - 1) :
    Balanced { s with work := s.work ++ [item], workReady := s.workReady.release 1, callers } := by
  have hLess : s.workReady.count < s.workReady.maxCount := by
    have hMax := h.maxCount
    have hCount := h.count
    omega
  rw [release_one h.maxCount hLess]
  refine ⟨h.running, h.free, h.threads, h.alive, h.maxCount, hLess, ?_⟩
  show (s.work ++ [item]).length = s.workReady.count + 1 + s.passed
  rw [List.length_append, h.work]
  exact Nat.add_right_comm _ _ _

theorem passed_looping (threads : List (Worker Work)) (n : Nat) :
    (threads ++ .replicate n .looping).countP (·.passed) = threads.countP (·.passed) := by
  rw [List.countP_append, List.countP_replicate]
  rfl

theorem alive_looping {threads : List (Worker Work)} (h : ∀ worker ∈ threads, worker.hasEnded = false) (n : Nat) :
    ∀ worker ∈ threads ++ .replicate n .looping, worker.hasEnded = false := by
  intro worker hWorker
  obtain hOld | hNew := List.mem_append.mp hWorker
  · exact h worker hOld
  · obtain rfl := List.eq_of_mem_replicate hNew
    rfl

/-- Threads are added while nothing waits to be claimed. -/
theorem balanced_grow (h : Balanced s) (n : Nat) (callers : List (Caller Work)) (hNone : s.workReady.count = 0) :
    Balanced { s with workReady := .reset 0, threads := s.threads ++ .replicate n .looping, callers } := by
  refine ⟨h.running, h.free, fun hEmpty => h.threads (List.append_eq_nil_iff.mp hEmpty).1, alive_looping h.alive n, rfl,
    Nat.zero_le _, ?_⟩
  show s.work.length = 0 + (s.threads ++ .replicate n .looping).countP (·.passed)
  rw [passed_looping, h.work, hNone]
  rfl

/-- A pool of new threads, and nothing to do. -/
theorem balanced_fresh {n : Nat} (hn : n ≠ 0) (callers : List (Caller Work)) :
    Balanced ⟨false, .reset 0, [], .replicate n .looping, callers, none⟩ := by
  have hAlive := alive_looping (fun (worker : Worker Work) h => absurd h List.not_mem_nil) n
  have hPassed := passed_looping ([] : List (Worker Work)) n
  refine ⟨rfl, rfl, fun hEmpty => hn ((List.replicate_eq_nil_iff _).mp hEmpty), hAlive, rfl, Nat.zero_le _, ?_⟩
  exact hPassed.symm.trans (Nat.zero_add _).symm

theorem Asked.append {callers : List (Caller Work)} (h : Asked callers) {caller : Caller Work}
    (hCaller : ∀ numWorkers, caller = .sized numWorkers ∨ caller = .resizing numWorkers → numWorkers ≠ 0) :
    Asked (callers ++ [caller]) := by
  intro other hOther
  obtain hOld | hNew := List.mem_append.mp hOther
  · exact h other hOld
  · obtain rfl := List.mem_singleton.mp hNew
    exact hCaller

theorem Asked.eraseIdx {callers : List (Caller Work)} (h : Asked callers) (i : Nat) : Asked (callers.eraseIdx i) :=
  fun caller hCaller => h caller (List.mem_of_mem_eraseIdx hCaller)

theorem Asked.resizing {callers : List (Caller Work)} (h : Asked callers) {i numWorkers : Nat}
    (hSized : callers[i]? = some (.sized numWorkers)) : Asked (callers.set i (.resizing numWorkers)) := by
  intro caller hCaller n hn
  obtain hOld | rfl := List.mem_or_eq_of_mem_set hCaller
  · exact h caller hOld n hn
  · obtain hOther | hSame := hn
    · cases hOther
    · obtain rfl := Caller.resizing.inj hSame
      exact h _ (List.mem_of_getElem? hSized) _ (.inl rfl)

/-- What comes of a call that takes another step. -/
theorem call_inv (h : Inv s) {i : Nat} {caller : Caller Work} (hCaller : s.callers[i]? = some caller)
    (hGood : ¬Strands s (.caller i)) (hStep : s.call i caller = some next) : Inv next := by
  have hErased := h.asked.eraseIdx i
  have hMember := List.mem_of_getElem? hCaller
  cases caller with
  | queueing item =>
      dsimp only [ThreadPool.call] at hStep
      split at hStep
      · cases hStep
      case isFalse hFree =>
        obtain rfl := Option.some.inj hStep
        obtain hBalanced | ⟨numWorkers, hJoining⟩ := h.state
        · refine ⟨.inl (balanced_queueing hBalanced item _ fun hFull => hGood ?_), hErased⟩
          unfold Strands
          dsimp only
          rw [hCaller]
          exact hFull
        · rw [hJoining.joining] at hFree
          exact absurd rfl hFree
  | sized numWorkers =>
      dsimp only [ThreadPool.call] at hStep
      split at hStep
      · obtain rfl := Option.some.inj hStep
        exact h.withCallers hErased
      · obtain rfl := Option.some.inj hStep
        exact h.withCallers (h.asked.resizing hCaller)
  | resizing numWorkers =>
      dsimp only [ThreadPool.call] at hStep
      split at hStep
      · cases hStep
      case isFalse hFree =>
        obtain rfl := Option.some.inj hStep
        refine ⟨?_, hErased⟩
        obtain hBalanced | ⟨n, hJoining⟩ := h.state
        · unfold ThreadPool.resize
          split
          · refine .inr ⟨numWorkers, rfl, rfl, ?_, rfl⟩
            exact h.asked _ hMember numWorkers (.inr rfl)
          case isFalse hMore =>
            refine .inl (balanced_grow hBalanced _ _ ?_)
            by_contra hWork
            refine hGood ?_
            unfold Strands
            dsimp only
            rw [hCaller]
            exact ⟨Nat.le_of_not_lt hMore, Nat.pos_of_ne_zero hWork⟩
        · rw [hJoining.joining] at hFree
          exact absurd rfl hFree

theorem worker_inv (h : Inv s) {i : Nat} (hStep : step s (.worker i) = some next) : Inv next := by
  obtain ⟨worker, hWorker, hProc⟩ := Option.bind_eq_some_iff.mp hStep
  obtain ⟨hCallers, hJoiningSame, hTerminating⟩ := workerProc_callers hProc
  refine ⟨?_, hCallers ▸ h.asked⟩
  obtain hBalanced | ⟨numWorkers, hJoining⟩ := h.state
  · exact .inl (workerProc_balanced hBalanced hWorker hProc)
  · refine .inr ⟨numWorkers, hTerminating.trans hJoining.terminating, hJoiningSame.trans hJoining.joining,
      hJoining.some, ?_⟩
    rw [workerProc_work (by rw [hJoining.joining]; rfl) hProc, hJoining.work]

theorem step_inv {s next : ThreadPool Work} {event : Event Work} (h : Inv s) (hGood : ¬Strands s event)
    (hStep : step s event = some next) : Inv next := by
  cases event with
  | queue item =>
      obtain rfl := Option.some.inj hStep
      unfold ThreadPool.queue
      split
      · exact h
      · exact h.withCallers (h.asked.append fun n hn => by simp at hn)
  | setNumThreads numThreads =>
      obtain rfl := Option.some.inj hStep
      unfold ThreadPool.setNumThreads
      split
      · exact h
      · refine h.withCallers (h.asked.append fun n hn => ?_)
        obtain hSame | hOther := hn
        · exact Caller.sized.inj hSame ▸ threadsFor_ne_zero numThreads
        · cases hOther
  | caller i =>
      obtain ⟨caller, hCaller, hCall⟩ := Option.bind_eq_some_iff.mp hStep
      exact call_inv h hCaller hGood hCall
  | join =>
      obtain ⟨numWorkers, hJoins, hEnded⟩ := Option.bind_eq_some_iff.mp hStep
      split at hEnded
      · obtain rfl := Option.some.inj hEnded
        obtain hBalanced | ⟨n, hJoining⟩ := h.state
        · rw [hBalanced.free] at hJoins
          cases hJoins
        · rw [hJoining.joining] at hJoins
          obtain rfl := Option.some.inj hJoins
          refine ⟨.inl ?_, h.asked⟩
          unfold ThreadPool.joined
          rw [hJoining.work]
          exact balanced_fresh hJoining.some s.callers
      · cases hEnded
  | worker i => exact worker_inv h hStep

theorem start_inv (numThreads : Nat) : Inv (.start numThreads : ThreadPool Work) :=
  ⟨.inl (balanced_fresh (threadsFor_ne_zero numThreads) []), fun _ h => absurd h List.not_mem_nil⟩

end Invariant

section Claims

variable {s next : ThreadPool Work}

/-- Steps of workers alone can bring a worker to this item, after which these are left. -/
def Claims (s : ThreadPool Work) (item : Work) (rest : List Work) : Prop :=
  ∃ (workers : List Nat) (next : ThreadPool Work), run step s (workers.map .worker) = some next ∧ next.work = rest ∧
    ∃ i : Nat, next.threads[i]? = some (.working item)

/-- All that is queued is behind a permit, or a worker that has one; every item can be claimed, and
nobody pops where there is nothing. -/
structure Sound (s : ThreadPool Work) : Prop where
  balanced : s.terminating = false → s.work.length = s.workReady.count + s.passed
  claimable : s.terminating = false → ∀ done item rest, s.work = done ++ item :: rest → Claims s item rest
  pops : ∀ i : Nat, s.threads[i]? = some .popping → s.joining = none → s.work ≠ []

theorem Claims.after {i : Nat} {item : Work} {rest : List Work} (h : Claims next item rest)
    (hStep : step s (.worker i) = some next) : Claims s item rest := by
  obtain ⟨workers, last, hRun, hLast⟩ := h
  exact ⟨i :: workers, last, (run_cons hStep _).trans hRun, hLast⟩

theorem getElem?_setThread {i : Nat} {worker : Worker Work} (h : s.threads[i]? = some worker)
    (after : Worker Work) : (s.setThread i after).threads[i]? = some after := by
  obtain ⟨hLength, -⟩ := List.getElem?_eq_some_iff.mp h
  exact List.getElem?_set_self hLength

section Worker

variable {i : Nat} {item : Work} {rest : List Work}

theorem step_worker {worker : Worker Work} (hThread : s.threads[i]? = some worker)
    (hProc : s.workerProc i worker = some next) : step s (.worker i) = some next := by
  show s.threads[i]?.bind _ = _
  rw [hThread]
  exact hProc

theorem claims_popping (h : Balanced s) (hThread : s.threads[i]? = some .popping) (hWork : s.work = item :: rest) :
    Claims s item rest := by
  have hStep : step s (.worker i) = some { s.setThread i (.working item) with work := rest } := by
    refine step_worker hThread ?_
    unfold ThreadPool.workerProc
    rw [h.free, hWork]
    rfl
  exact ⟨[i], _, run_cons hStep [], rfl, i, getElem?_setThread hThread _⟩

theorem claims_woken (h : Balanced s) (hThread : s.threads[i]? = some .woken) (hWork : s.work = item :: rest) :
    Claims s item rest := by
  have hStep : step s (.worker i) = some (s.setThread i .popping) := by
    refine step_worker hThread ?_
    unfold ThreadPool.workerProc
    rw [h.running]
    rfl
  have hNext : Balanced (s.setThread i .popping) := h.setThread hThread rfl rfl (Nat.le_refl _) rfl
  exact (claims_popping hNext (getElem?_setThread hThread _) hWork).after hStep

theorem claims_waiting (h : Balanced s) (hThread : s.threads[i]? = some .waiting) (hWork : s.work = item :: rest)
    (hCount : 0 < s.workReady.count) : Claims s item rest := by
  let workReady : Semaphore := { s.workReady with count := s.workReady.count - 1 }
  have hStep : step s (.worker i) = some { s.setThread i .woken with workReady } := by
    refine step_worker hThread ?_
    unfold ThreadPool.workerProc Semaphore.wait
    rw [if_pos hCount]
    rfl
  have hNext : Balanced { s.setThread i .woken with workReady } := by
    refine h.setThread hThread rfl rfl (Nat.sub_le _ _) ?_
    show s.work.length + s.workReady.count + 0 = s.work.length + (s.workReady.count - 1) + 1
    omega
  exact (claims_woken hNext (getElem?_setThread hThread _) hWork).after hStep

theorem claims_looping (h : Balanced s) (hThread : s.threads[i]? = some .looping) (hWork : s.work = item :: rest)
    (hCount : 0 < s.workReady.count) : Claims s item rest := by
  have hStep : step s (.worker i) = some (s.setThread i .waiting) := by
    refine step_worker hThread ?_
    unfold ThreadPool.workerProc
    rw [h.running]
    rfl
  have hNext : Balanced (s.setThread i .waiting) := h.setThread hThread rfl rfl (Nat.le_refl _) rfl
  exact (claims_waiting hNext (getElem?_setThread hThread _) hWork hCount).after hStep

theorem claims_working (h : Balanced s) {busy : Work} (hThread : s.threads[i]? = some (.working busy))
    (hWork : s.work = item :: rest) (hCount : 0 < s.workReady.count) : Claims s item rest := by
  have hStep : step s (.worker i) = some (s.setThread i .looping) := step_worker hThread rfl
  have hNext : Balanced (s.setThread i .looping) := h.setThread hThread rfl rfl (Nat.le_refl _) rfl
  exact (claims_looping hNext (getElem?_setThread hThread _) hWork hCount).after hStep

/-- Any worker can claim the first item, but where the permit for it is taken already, only the one
that has it. -/
theorem claims_head (h : Balanced s) (hWork : s.work = item :: rest) : Claims s item rest := by
  by_cases hPassed : s.passed = 0
  · have hCount : 0 < s.workReady.count := by
      have hLength := h.work
      rw [hWork, List.length_cons] at hLength
      omega
    obtain ⟨worker, threads, hThreads⟩ := List.exists_cons_of_ne_nil h.threads
    have hThread : s.threads[0]? = some worker := by
      rw [hThreads]
      rfl
    have hMember := List.mem_of_getElem? hThread
    have hNot : worker.passed ≠ true := fun hWorker => List.countP_eq_zero.mp hPassed worker hMember hWorker
    have hAlive := h.alive worker hMember
    cases worker with
    | looping => exact claims_looping h hThread hWork hCount
    | waiting => exact claims_waiting h hThread hWork hCount
    | woken | popping => exact absurd rfl hNot
    | working busy => exact claims_working h hThread hWork hCount
    | ended => cases hAlive
  · obtain ⟨worker, hMember, hWorker⟩ := List.countP_pos_iff.mp (Nat.pos_of_ne_zero hPassed)
    obtain ⟨i, hThread⟩ := List.mem_iff_getElem?.mp hMember
    cases worker with
    | woken => exact claims_woken h hThread hWork
    | popping => exact claims_popping h hThread hWork
    | looping | waiting | working busy | ended => cases hWorker

end Worker

theorem workers_balanced (h : Balanced s) {workers : List Nat} (hRun : run step s (workers.map .worker) = some next) :
    Balanced next := by
  induction workers generalizing s with
  | nil => exact Option.some.inj hRun ▸ h
  | cons i workers ih =>
      obtain ⟨later, hStep, hRest⟩ := Option.bind_eq_some_iff.mp hRun
      obtain ⟨worker, hWorker, hProc⟩ := Option.bind_eq_some_iff.mp hStep
      exact ih (workerProc_balanced h hWorker hProc) hRest

/-- The items are claimed one by one. -/
theorem claims_later (h : Balanced s) {done : List Work} {item : Work} {rest : List Work}
    (hWork : s.work = done ++ item :: rest) : Claims s item rest := by
  induction done generalizing s with
  | nil => exact claims_head h hWork
  | cons first done ih =>
      obtain ⟨workers, later, hRun, hLater, -⟩ := claims_head h hWork
      obtain ⟨others, last, hOthers, hLast⟩ := ih (workers_balanced h hRun) hLater
      refine ⟨workers ++ others, last, ?_, hLast⟩
      rw [List.map_append, run_append, hRun]
      exact hOthers

theorem Inv.sound (h : Inv s) : Sound s := by
  obtain hBalanced | ⟨numWorkers, hJoining⟩ := h.state
  · refine ⟨fun _ => hBalanced.work, fun _ done item rest hWork => claims_later hBalanced hWork, ?_⟩
    intro i hThread hFree hEmpty
    have hPassed : 0 < s.passed := List.countP_pos_iff.mpr ⟨.popping, List.mem_of_getElem? hThread, rfl⟩
    have hLength := hBalanced.work
    rw [hEmpty, List.length_nil] at hLength
    omega
  · have hNever : s.terminating ≠ false := by
      rw [hJoining.terminating]
      exact Bool.noConfusion
    refine ⟨fun hRunning => absurd hRunning hNever, fun hRunning => absurd hRunning hNever, ?_⟩
    intro i hThread hFree
    rw [hJoining.joining] at hFree
    cases hFree

theorem strands_breaks {event : Event Work} (h : Inv s) (hBad : Strands s event) (hStep : step s event = some next) :
    ¬Sound next := by
  intro hSound
  cases event with
  | caller i =>
      obtain ⟨caller, hCaller, hCall⟩ := Option.bind_eq_some_iff.mp hStep
      unfold Strands at hBad
      dsimp only at hBad
      rw [hCaller] at hBad
      have hBalanced : s.joining = none → Balanced s := by
        intro hFree
        refine h.state.resolve_right fun ⟨n, hJoining⟩ => ?_
        rw [hJoining.joining] at hFree
        cases hFree
      cases caller with
      | sized numWorkers => exact hBad
      | queueing item =>
          dsimp only at hBad
          dsimp only [ThreadPool.call] at hCall
          split at hCall
          · cases hCall
          case isFalse hFree =>
            have hBefore := hBalanced (Option.not_isSome_iff_eq_none.mp hFree)
            obtain rfl := Option.some.inj hCall
            -- The sum of the counts is 0.
            have hAgain : (s.workReady.release 1).count = 0 := by
              unfold Semaphore.release
              rw [hBad, hBefore.maxCount]
              rfl
            have hLength := hSound.balanced hBefore.running
            change (s.work ++ [item]).length = (s.workReady.release 1).count + s.passed at hLength
            rw [hAgain, List.length_append, List.length_singleton, hBefore.work] at hLength
            omega
      | resizing numWorkers =>
          dsimp only at hBad
          dsimp only [ThreadPool.call] at hCall
          split at hCall
          · cases hCall
          case isFalse hFree =>
            have hBefore := hBalanced (Option.not_isSome_iff_eq_none.mp hFree)
            unfold ThreadPool.resize at hCall
            rw [if_neg (Nat.not_lt.mpr hBad.1)] at hCall
            obtain rfl := Option.some.inj hCall
            have hLength := hSound.balanced hBefore.running
            change s.work.length = 0 + (s.threads ++ .replicate _ .looping).countP (·.passed) at hLength
            rw [passed_looping, hBefore.work] at hLength
            have hCount := hBad.2
            change s.workReady.count + s.passed = 0 + s.passed at hLength
            omega
  | _ => exact hBad

/-- Work is neither stranded nor invented exactly in those runs in which no call of `SetNumThreads`
starts more threads, or as many, while there is work that is not claimed, and no call of `Queue` finds
the semaphore at its greatest count. -/
theorem work_kept_iff (numThreads : Nat) (events : List (Event Work)) :
    Always step Sound (.start numThreads) events ↔ Avoids step Strands (.start numThreads) events :=
  always_iff_avoids (fun _ h => h.sound) (fun _ _ _ h hGood hStep => step_inv h hGood hStep)
    (fun _ _ _ h hBad hStep => strands_breaks h hBad hStep) (start_inv numThreads) events

/-- An item is queued, and the number of threads grows before the only worker has got to it. -/
theorem grown_pool_strands :
    ¬Always step Sound (.start 1 : ThreadPool Unit)
      [.queue (), .caller 0, .setNumThreads 2, .caller 0, .caller 0] := by
  intro hAlways
  have hStranded : run step (.start 1 : ThreadPool Unit)
      [.queue (), .caller 0, .setNumThreads 2, .caller 0, .caller 0] =
        some ⟨false, .reset 0, [()], [.looping, .looping], [], none⟩ := by
    decide
  have hLength := (hAlways _ _ List.prefix_rfl hStranded).balanced rfl
  cases hLength

end Claims

end Model

end Etheos.ThreadPools
