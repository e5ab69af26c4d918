import Etheos.General.Sweep
import Etheos.General.Tables
import Mathlib.Algebra.Ring.Int.Defs
import Mathlib.Order.Lattice

/-! The log of connections, with which `Tick` slows down clients that come back too soon. Time is
any type that is compared and added as the program does. -/
namespace Etheos.EOServer

open General

abbrev IPAddress := BitVec 32

/-- An address of a private network. -/
def IPAddress.isPrivate (address : IPAddress) : Bool :=
  let o1 := (address &&& 0xFF000000#32) >>> 24
  let o2 := (address &&& 0x00FF0000#32) >>> 16
  o1 == 10#32 || (o1 == 172#32 && 16#32 ≤ o2 && o2 ≤ 31#32) || (o1 == 192#32 && o2 == 168#32)

inductive LogConnection where
  | logAll
  | filterPrivate
  | filterAll
  deriving Repr, DecidableEq

structure ConnectionLogEntry (T : Type*) where
  lastConnectionTime : T
  lastRejectionTime : T
  rejections : Nat
  deriving Repr, DecidableEq

structure Limits where
  iPReconnectLimit : Int
  maxConnectionsPerIP : Int
  logConnection : LogConnection
  quietConnectionErrors : Bool
  deriving Repr, DecidableEq

/-- The entries are in the order in which the loop comes to them. -/
abbrev ConnectionLog (T : Type*) := Table IPAddress (ConnectionLogEntry T)

abbrev Row (T : Type*) := Sigma fun _ : IPAddress => ConnectionLogEntry T

/-- What becomes of a new client. -/
inductive Verdict where
  | throttled
  | tooMany
  | logged
  | unlogged
  deriving Repr, DecidableEq

variable {T : Type*} [LinearOrder T] [Add T] [IntCast T]

namespace ConnectionLogEntry

/-- Neither time keeps the entry in the log. -/
def expired (limit : Int) (now : T) (entry : ConnectionLogEntry T) : Bool :=
  entry.lastConnectionTime + (limit : T) < now && entry.lastRejectionTime + ((30 : Int) : T) < now

/-- The last connection is too recent for another one. -/
def recent (limit : Int) (now : T) (entry : ConnectionLogEntry T) : Bool :=
  now ≤ entry.lastConnectionTime + (limit : T)

theorem expired_of_recent {limit : Int} {now : T} {entry : ConnectionLogEntry T} (h : entry.recent limit now) :
    entry.expired limit now = false := by
  simp only [recent, decide_eq_true_eq] at h
  simp [expired, h]

end ConnectionLogEntry

section Loop

variable (limit : Int) (now : T) (remoteAddr : IPAddress)

/-- The loop of `Tick` over the log, and `throttle`. After `erase` and `continue` the loop still
steps on. -/
def expire (throttle : Bool) : List (Row T) → List (Row T) × Bool
  | [] => ([], throttle)
  | [connection] =>
      if connection.2.expired limit now then ([], throttle)
      else ([connection], throttle || (connection.1 == remoteAddr && connection.2.recent limit now))
  | connection :: next :: rest =>
      if connection.2.expired limit now then
        let r := expire throttle rest
        (next :: r.1, r.2)
      else
        let r := expire (throttle || (connection.1 == remoteAddr && connection.2.recent limit now)) (next :: rest)
        (connection :: r.1, r.2)

def dead (connection : Row T) : Bool := connection.2.expired limit now

def slows (connection : Row T) : Bool := connection.1 == remoteAddr && connection.2.recent limit now

variable {limit now remoteAddr}

theorem expire_eq (throttle : Bool) (entries : List (Row T)) :
    expire limit now remoteAddr throttle entries =
      (sweep (dead limit now) entries,
        throttle || (looked (dead limit now) entries).any (slows limit now remoteAddr)) := by
  induction entries using sweep.induct (dead limit now) generalizing throttle with
  | case1 => simp [expire, sweep, looked]
  | case2 connection h => simp_all [expire, sweep, looked, dead]
  | case3 connection h => simp_all [expire, sweep, looked, dead, slows]
  | case4 connection next rest h ih =>
      have hExpired : connection.2.expired limit now := h
      rw [sweep_dead h, looked_dead h, expire, if_pos hExpired, ih]
  | case5 connection next rest h ih =>
      have hAlive : dead limit now connection = false := by simpa using h
      have hStays : ¬connection.2.expired limit now := h
      rw [sweep_alive hAlive, looked_alive hAlive, expire, if_neg hStays, ih, List.any_cons, ← Bool.or_assoc, slows]

theorem expire_sublist {throttle : Bool} {entries : List (Row T)} :
    (expire limit now remoteAddr throttle entries).1.Sublist entries := by
  rw [expire_eq]
  exact sweep_sublist

end Loop

section Tick

variable [Zero T] (limits : Limits) (now later : T) (clients : List IPAddress) (remoteAddr : IPAddress)
  (log : ConnectionLog T)

/-- `connection_log[ip]`, which puts a new entry in if there is none. -/
def entryOf (ip : IPAddress) : ConnectionLogEntry T := (log.lookup ip).getD ⟨0, 0, 0⟩

def recordClientRejection (ip : IPAddress) : ConnectionLog T :=
  if limits.quietConnectionErrors then
    let entry := entryOf log ip
    if entry.rejections + 1 < 100 then
      log.insert ip { entry with rejections := entry.rejections + 1, lastRejectionTime := later }
    else log.insert ip { entry with rejections := entry.rejections + 1 }
  else log

/-- What the loop leaves of the log. -/
def expireLog : ConnectionLog T :=
  ⟨(expire limits.iPReconnectLimit now remoteAddr false log.entries).1, log.nodupKeys.sublist expire_sublist⟩

/-- `Tick` has polled a new client. `clients` are the addresses of all clients, and `later` is the
time when the log is written. -/
def tick : ConnectionLog T × Verdict :=
  let throttle := (expire limits.iPReconnectLimit now remoteAddr false log.entries).2
  let log := expireLog limits now remoteAddr log
  let ipConnections := clients.countP (· == remoteAddr)
  if throttle then (recordClientRejection limits later log remoteAddr, .throttled)
  else if limits.maxConnectionsPerIP ≠ 0 ∧ limits.maxConnectionsPerIP < ipConnections then
    (recordClientRejection limits later log remoteAddr, .tooMany)
  else if limits.logConnection = .logAll ∨ (limits.logConnection = .filterPrivate ∧ ¬remoteAddr.isPrivate) then
    (log.insert remoteAddr { entryOf log remoteAddr with lastConnectionTime := later }, .logged)
  else (log, .unlogged)

/-- A new client is throttled by the entry of its address, and what goes from the log are the
entries that have expired. -/
structure Throttles : Prop where
  throttled : (tick limits now later clients remoteAddr log).2 = .throttled ↔
    ∃ entry ∈ log.lookup remoteAddr, now ≤ entry.lastConnectionTime + (limits.iPReconnectLimit : T)
  expired : (expireLog limits now remoteAddr log).entries =
    log.entries.filter fun connection => !connection.2.expired limits.iPReconnectLimit now

/-- No entry that has expired has one behind it that the loop has to look at. -/
def Spaced : Prop :=
  log.entries.IsChain fun connection next => connection.2.expired limits.iPReconnectLimit now →
    next.2.expired limits.iPReconnectLimit now = false ∧
      ¬(next.1 = remoteAddr ∧ now ≤ next.2.lastConnectionTime + (limits.iPReconnectLimit : T))

variable {limits now later clients remoteAddr log}

theorem tick_throttled : (tick limits now later clients remoteAddr log).2 = .throttled ↔
    (expire limits.iPReconnectLimit now remoteAddr false log.entries).2 := by
  unfold tick
  dsimp only
  split
  case isTrue h => simp [h]
  case isFalse h =>
    rw [iff_false_right h]
    split
    · simp
    · split <;> simp

theorem tick_throttled_iff : (tick limits now later clients remoteAddr log).2 = .throttled ↔
    ∃ connection ∈ looked (dead limits.iPReconnectLimit now) log.entries,
      slows limits.iPReconnectLimit now remoteAddr connection := by
  rw [tick_throttled, expire_eq, Bool.false_or, List.any_eq_true]

/-- A rejection and a new connection are written for the address of the client alone. -/
theorem tick_lookup {ip : IPAddress} (h : ip ≠ remoteAddr) :
    (tick limits now later clients remoteAddr log).1.lookup ip = (expireLog limits now remoteAddr log).lookup ip := by
  have hRejection : (recordClientRejection limits later (expireLog limits now remoteAddr log) remoteAddr).lookup ip =
      (expireLog limits now remoteAddr log).lookup ip := by
    unfold recordClientRejection
    dsimp only
    split
    · split
      · exact AList.lookup_insert_ne h
      · exact AList.lookup_insert_ne h
    · rfl
  unfold tick
  dsimp only
  split
  · exact hRejection
  · split
    · exact hRejection
    · split
      · exact AList.lookup_insert_ne h
      · rfl

omit [Zero T] in
theorem exists_slows_iff : (∃ connection ∈ log.entries, slows limits.iPReconnectLimit now remoteAddr connection) ↔
    ∃ entry ∈ log.lookup remoteAddr, now ≤ entry.lastConnectionTime + (limits.iPReconnectLimit : T) := by
  constructor
  · rintro ⟨⟨ip, entry⟩, hMem, hSlows⟩
    obtain ⟨rfl, hRecent⟩ : ip = remoteAddr ∧ _ := by simpa [slows, ConnectionLogEntry.recent] using hSlows
    exact ⟨entry, AList.mem_lookup_iff.mpr hMem, hRecent⟩
  · rintro ⟨entry, hLookup, hRecent⟩
    refine ⟨⟨remoteAddr, entry⟩, AList.mem_lookup_iff.mp hLookup, ?_⟩
    simp [slows, ConnectionLogEntry.recent, hRecent]

omit [Zero T] in
theorem spaced_iff_isChain : Spaced limits now remoteAddr log ↔
    log.entries.IsChain (Apart (dead limits.iPReconnectLimit now) (slows limits.iPReconnectLimit now remoteAddr)) := by
  refine List.IsChain.iff fun connection next => ?_
  simp [Apart, dead, slows, ConnectionLogEntry.recent]

omit [Zero T] in
theorem expireLog_entries :
    (expireLog limits now remoteAddr log).entries = sweep (dead limits.iPReconnectLimit now) log.entries := by
  simp only [expireLog, expire_eq]

omit [Zero T] in
/-- There is one entry of an address. -/
theorem pairwise_slows : log.entries.Pairwise fun connection next =>
    slows limits.iPReconnectLimit now remoteAddr connection → slows limits.iPReconnectLimit now remoteAddr next = false := by
  refine (List.nodupKeys_iff_pairwise.mp log.nodupKeys).imp fun {connection next} hNe hSlows => ?_
  have hSame : connection.1 = remoteAddr := by
    simp only [slows, Bool.and_eq_true, beq_iff_eq] at hSlows
    exact hSlows.1
  simp [slows, ← hSame, hNe.symm]

theorem throttles_iff : Throttles limits now later clients remoteAddr log ↔ Spaced limits now remoteAddr log := by
  have hAlive : ∀ connection : Row T, slows limits.iPReconnectLimit now remoteAddr connection →
      dead limits.iPReconnectLimit now connection = false := by
    intro connection hSlows
    simp only [slows, Bool.and_eq_true] at hSlows
    exact ConnectionLogEntry.expired_of_recent hSlows.2
  rw [spaced_iff_isChain, ← sweep_exact_iff hAlive pairwise_slows, exists_slows_iff, ← tick_throttled_iff,
    ← sweep_eq_filter_iff, ← expireLog_entries]
  constructor
  · intro h
    exact ⟨h.expired, h.throttled⟩
  · rintro ⟨hExpired, hThrottled⟩
    exact ⟨hThrottled, hExpired⟩

end Tick

/-- An old entry stands before that of the address. -/
def oldFirst : ConnectionLog Int :=
  ⟨[⟨1#32, 0, 0, 0⟩, ⟨2#32, 95, 0, 0⟩], by simp [List.NodupKeys, List.keys]⟩

/-- The entry of the address is five seconds old, and the limit is ten. -/
theorem oldFirst_counterexample :
    ¬∀ (limits : Limits) (now later : Int) (clients : List IPAddress) (remoteAddr : IPAddress)
      (log : ConnectionLog Int), Throttles limits now later clients remoteAddr log := by
  intro h
  have hThrottled := (h ⟨10, 2, .logAll, true⟩ 100 100 [2#32] 2#32 oldFirst).throttled
  revert hThrottled
  decide

end Etheos.EOServer
