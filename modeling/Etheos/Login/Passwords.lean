import Etheos.General.Run
import Etheos.Packet.Processor

/-! The stored password of one account. Logins, changes and updates of the hash run on
other threads, and every statement of the database is one step. -/
namespace Etheos.Login

inductive HashFunc where
  | none
  | sha256
  | bcrypt
  deriving Repr, DecidableEq

def HashFunc.toNat : HashFunc → Nat
  | .none => 0
  | .sha256 => 1
  | .bcrypt => 2

/-- The seed stands for the random salt of bcrypt. -/
structure Hasher where
  hash : (seed : Nat) → (input : Bytes) → Bytes
  check : (toCheck hashed : Bytes) → Bool

/-- What `check` is documented to do about the hash of the same input. -/
def Hasher.Accepts (hasher : Hasher) : Prop :=
  ∀ seed input, hasher.check input (hasher.hash seed input) = true

/-- There is no hasher for `NONE`. -/
structure PasswordConfig where
  passwordSalt : Bytes
  passwordCurrentVersion : HashFunc
  passwordHashers : HashFunc → Option Hasher

structure AccountRow where
  password : Bytes
  passwordVersion : HashFunc
  deriving Repr, DecidableEq

def saltPassword (salt username password : Bytes) : Bytes := salt ++ username ++ password

namespace PasswordConfig

/-- A password against a row that has been read. Without a hasher the program ends. -/
def check (config : PasswordConfig) (username : Bytes) (row : AccountRow) (password : Bytes) :
    Option Bool :=
  (config.passwordHashers row.passwordVersion).map fun hasher =>
    hasher.check (saltPassword config.passwordSalt username password) row.password

def hashed (config : PasswordConfig) (username : Bytes) (version : HashFunc) (seed : Nat)
    (password : Bytes) : Option AccountRow :=
  (config.passwordHashers version).map fun hasher =>
    ⟨hasher.hash seed (saltPassword config.passwordSalt username password), version⟩

/-- The hash of a password is taken for that of another one. -/
def Collides (config : PasswordConfig) (username : Bytes) (version : HashFunc) (seed : Nat)
    (password : Bytes) (others : List Bytes) : Prop :=
  ∃ row ∈ config.hashed username version seed password,
    ∃ other ∈ others, other ≠ password ∧ config.check username row other = some true

instance (config : PasswordConfig) (username : Bytes) (version : HashFunc) (seed : Nat)
    (password : Bytes) (others : List Bytes) :
    Decidable (config.Collides username version seed password others) :=
  inferInstanceAs (Decidable (∃ row ∈ config.hashed username version seed password,
    ∃ other ∈ others, other ≠ password ∧ config.check username row other = some true))

end PasswordConfig

/-- `updates` are the queued updates of the hash, and `changes` the new passwords of the
changes whose old password has been checked. A change gets a number with its statement;
`unreported` and `reported` are those without and with a report of success. `latest` is the
password of the last change, and `older` are the ones before it. -/
structure Account where
  username : Bytes
  row : AccountRow
  updates : List (Bytes × HashFunc)
  changes : List Bytes
  unreported : List Nat
  reported : List Nat
  latest : Bytes
  older : List Bytes

/-- The statements of `CheckLoginAsync`, of `SetPasswordAsync` with its report, and of
`UpdatePasswordVersionInBackground`. -/
inductive PasswordEvent where
  | login (password : Bytes)
  | checkLogin (oldPassword newPassword : Bytes)
  | setPassword (newPassword : Bytes) (seed : Nat)
  | report (number : Nat)
  | updatePasswordVersion (password : Bytes) (hashFunc : HashFunc) (seed : Nat)
  deriving Repr, DecidableEq

namespace Account

def new (username : Bytes) (row : AccountRow) (password : Bytes) : Account :=
  ⟨username, row, [], [], [], [], password, []⟩

/-- An update is queued with the password of the login. -/
def login (config : PasswordConfig) (a : Account) (password : Bytes) : Option Account :=
  (config.check a.username a.row password).map fun (isCorrect : Bool) =>
    if isCorrect ∧ a.row.passwordVersion.toNat < config.passwordCurrentVersion.toNat then
      { a with updates := a.updates ++ [(password, config.passwordCurrentVersion)] }
    else a

def checkLogin (config : PasswordConfig) (a : Account) (oldPassword newPassword : Bytes) :
    Option Account :=
  (config.check a.username a.row oldPassword).map fun isCorrect =>
    if isCorrect then { a with changes := a.changes ++ [newPassword] } else a

def setPassword (config : PasswordConfig) (a : Account) (newPassword : Bytes) (seed : Nat) :
    Option Account :=
  (config.hashed a.username config.passwordCurrentVersion seed newPassword).map fun row =>
    { a with
      row := row
      changes := a.changes.erase newPassword
      unreported := a.unreported ++ [a.older.length + 1]
      latest := newPassword
      older := a.latest :: a.older }

def updatePasswordVersion (config : PasswordConfig) (a : Account) (password : Bytes)
    (hashFunc : HashFunc) (seed : Nat) : Option Account :=
  let a := { a with updates := a.updates.erase (password, hashFunc) }
  if hashFunc ≠ .none then
    (config.hashed a.username hashFunc seed password).map fun row => { a with row := row }
  else some a

def step (config : PasswordConfig) (a : Account) : PasswordEvent → Option Account
  | .login password => a.login config password
  | .checkLogin oldPassword newPassword => a.checkLogin config oldPassword newPassword
  | .setPassword newPassword seed =>
      if newPassword ∈ a.changes then a.setPassword config newPassword seed else none
  | .report number =>
      if number ∈ a.unreported then
        some { a with unreported := a.unreported.erase number, reported := number :: a.reported }
      else none
  | .updatePasswordVersion password hashFunc seed =>
      if (password, hashFunc) ∈ a.updates then a.updatePasswordVersion config password hashFunc seed
      else none

/-- The stored hash is one of the latest password, and no older one passes for it. -/
def Current (config : PasswordConfig) (a : Account) : Prop :=
  config.check a.username a.row a.latest = some true ∧
    ∀ password ∈ a.older, password ≠ a.latest → config.check a.username a.row password = some false

/-- Once the last change has reported success, the new password is the stored one. -/
def Survives (config : PasswordConfig) (a : Account) : Prop :=
  a.older.length ∈ a.reported → a.Current config

/-- An update of the hash writes another password than that of the last change. Or a hash
is written that an older password passes for. -/
def Overwrites (config : PasswordConfig) (a : Account) : PasswordEvent → Prop
  | .setPassword newPassword seed =>
      config.Collides a.username config.passwordCurrentVersion seed newPassword (a.latest :: a.older)
  | .updatePasswordVersion password hashFunc seed =>
      hashFunc ≠ .none ∧ a.older ≠ [] ∧
        (password ≠ a.latest ∨ config.Collides a.username hashFunc seed password a.older)
  | _ => False

instance (config : PasswordConfig) (a : Account) : (event : PasswordEvent) →
    Decidable (a.Overwrites config event)
  | .login _ => isFalse id
  | .checkLogin _ _ => isFalse id
  | .setPassword newPassword seed =>
      inferInstanceAs (Decidable (config.Collides a.username config.passwordCurrentVersion seed newPassword
        (a.latest :: a.older)))
  | .report _ => isFalse id
  | .updatePasswordVersion _ _ _ => inferInstanceAs (Decidable (_ ∧ _))

/-- From the first change on the stored hash is that of the last one. Changes are numbered
from one. -/
structure Kept (config : PasswordConfig) (a : Account) : Prop where
  stored : a.older ≠ [] → a.Current config
  numbers : ∀ number ∈ a.unreported ++ a.reported, 0 < number

theorem Kept.survives {config : PasswordConfig} {a : Account} (h : a.Kept config) : a.Survives config := by
  intro hReported
  refine h.stored fun hNone => ?_
  have hNumber := h.numbers _ (List.mem_append_right _ hReported)
  rw [hNone] at hNumber
  exact Nat.lt_irrefl 0 hNumber

section Steps

variable {config : PasswordConfig}

/-- A fresh hash accepts its own password, and no other one that it does not collide with. -/
theorem hashed_current
    (hAccepts : ∀ version hasher, config.passwordHashers version = some hasher → hasher.Accepts)
    {username : Bytes} {version : HashFunc} {seed : Nat} {password : Bytes} {others : List Bytes}
    {row : AccountRow} (hRow : config.hashed username version seed password = some row)
    (hApart : ¬config.Collides username version seed password others) :
    config.check username row password = some true ∧
      ∀ other ∈ others, other ≠ password → config.check username row other = some false := by
  obtain ⟨hasher, hHasher, rfl⟩ := Option.map_eq_some_iff.mp hRow
  constructor
  · rw [PasswordConfig.check, hHasher, Option.map_some, hAccepts version hasher hHasher]
  · intro other hOther hNe
    have hAnswer : config.check username
        ⟨hasher.hash seed (saltPassword config.passwordSalt username password), version⟩ other ≠
          some true :=
      fun hTrue => hApart ⟨_, hRow, other, hOther, hNe, hTrue⟩
    rw [PasswordConfig.check, hHasher, Option.map_some] at hAnswer ⊢
    rw [Bool.eq_false_iff.mpr fun hTrue => hAnswer (congrArg some hTrue)]

/-- A step that only reads the row. -/
theorem Kept.frame {a next : Account} (h : a.Kept config) (hUsername : next.username = a.username)
    (hRow : next.row = a.row) (hLatest : next.latest = a.latest) (hOlder : next.older = a.older)
    (hNumbers : ∀ number ∈ next.unreported ++ next.reported, 0 < number) : next.Kept config := by
  refine ⟨fun hChanged => ?_, hNumbers⟩
  rw [hOlder] at hChanged
  rw [Current, hUsername, hRow, hLatest, hOlder]
  exact h.stored hChanged

theorem step_kept
    (hAccepts : ∀ version hasher, config.passwordHashers version = some hasher → hasher.Accepts)
    (a : Account) (event : PasswordEvent) (next : Account) (h : a.Kept config)
    (hGood : ¬a.Overwrites config event) (hStep : a.step config event = some next) :
    next.Kept config := by
  cases event with
  | login password =>
      obtain ⟨isCorrect, -, rfl⟩ := Option.map_eq_some_iff.mp hStep
      split
      · exact h.frame rfl rfl rfl rfl h.numbers
      · exact h
  | checkLogin oldPassword newPassword =>
      obtain ⟨isCorrect, -, rfl⟩ := Option.map_eq_some_iff.mp hStep
      split
      · exact h.frame rfl rfl rfl rfl h.numbers
      · exact h
  | setPassword newPassword seed =>
      obtain ⟨-, hSet⟩ := Option.ite_none_right_eq_some.mp hStep
      obtain ⟨row, hRow, rfl⟩ := Option.map_eq_some_iff.mp hSet
      refine ⟨fun _ => hashed_current hAccepts hRow hGood, fun number hNumber => ?_⟩
      rcases List.mem_append.mp hNumber with hUnreported | hReported
      · rcases List.mem_append.mp hUnreported with hOld | hNew
        · exact h.numbers number (List.mem_append_left _ hOld)
        · obtain rfl := List.mem_singleton.mp hNew
          exact Nat.succ_pos _
      · exact h.numbers number (List.mem_append_right _ hReported)
  | report number =>
      obtain ⟨hNumber, hNext⟩ := Option.ite_none_right_eq_some.mp hStep
      obtain rfl := Option.some.inj hNext
      refine h.frame rfl rfl rfl rfl fun other hOther => ?_
      rcases List.mem_append.mp hOther with hUnreported | hReported
      · exact h.numbers other (List.mem_append_left _ (List.mem_of_mem_erase hUnreported))
      · rcases List.mem_cons.mp hReported with rfl | hOld
        · exact h.numbers _ (List.mem_append_left _ hNumber)
        · exact h.numbers other (List.mem_append_right _ hOld)
  | updatePasswordVersion password hashFunc seed =>
      obtain ⟨-, hUpdate⟩ := Option.ite_none_right_eq_some.mp hStep
      unfold updatePasswordVersion at hUpdate
      dsimp only at hUpdate
      split at hUpdate
      case isTrue hSome =>
        obtain ⟨row, hRow, rfl⟩ := Option.map_eq_some_iff.mp hUpdate
        refine ⟨fun hChanged => ?_, h.numbers⟩
        obtain ⟨hLatest, hApart⟩ := not_or.mp (not_and.mp (not_and.mp hGood hSome) hChanged)
        obtain rfl := not_not.mp hLatest
        exact hashed_current hAccepts hRow hApart
      case isFalse =>
        cases hUpdate
        exact h.frame rfl rfl rfl rfl h.numbers

end Steps

/-- A change lasts in every run in which no update of the hash overtakes it. -/
theorem survives_of_avoids {config : PasswordConfig}
    (hAccepts : ∀ version hasher, config.passwordHashers version = some hasher → hasher.Accepts)
    (username : Bytes) (row : AccountRow) (password : Bytes) {events : List PasswordEvent}
    (hAvoids : General.Avoids (step config) (Overwrites config) (new username row password) events) :
    General.Always (step config) (Survives config) (new username row password) events := by
  have hStart : (new username row password).Kept config :=
    ⟨fun hChanged => absurd rfl hChanged, fun _ hNumber => by cases hNumber⟩
  exact (General.always_of_avoids (step_kept hAccepts) hStart hAvoids).mono fun _ => Kept.survives

/-- Hashes that can be read: the seed in front of the input. -/
def plainHasher : Hasher where
  hash seed input := seed.toUInt8 :: input
  check toCheck hashed := hashed.tail = toCheck

theorem plainHasher_accepts : plainHasher.Accepts := fun _ _ => decide_eq_true rfl

def plainConfig : PasswordConfig where
  passwordSalt := [115]
  passwordCurrentVersion := .bcrypt
  passwordHashers := fun version => if version = .none then none else some plainHasher

/-- The update of the first login comes before the change. -/
def promptUpdate : List PasswordEvent :=
  [.login [1], .updatePasswordVersion [1] .bcrypt 7, .checkLogin [1] [2], .setPassword [2] 8, .report 1,
    .login [2], .checkLogin [2] [1], .setPassword [1] 9, .report 2]

theorem survives_of_avoids_promptUpdate :
    General.Always (step plainConfig) (Survives plainConfig) (new [97] ⟨[0, 115, 97, 1], .sha256⟩ [1])
      promptUpdate := by
  refine survives_of_avoids (fun version hasher hHasher => ?_) _ _ _ (by decide)
  obtain ⟨-, hPlain⟩ := Option.ite_none_left_eq_some.mp hHasher
  exact Option.some.inj hPlain ▸ plainHasher_accepts

/-- The update of the login comes after the change. -/
def lateUpdate : List PasswordEvent :=
  [.login [1], .checkLogin [1] [2], .setPassword [2] 8, .report 1, .updatePasswordVersion [1] .bcrypt 7]

/-- The change is undone: the old password passes again, and the new one does not. -/
theorem not_survives_lateUpdate :
    ¬General.Always (step plainConfig) (Survives plainConfig) (new [97] ⟨[0, 115, 97, 1], .sha256⟩ [1])
      lateUpdate := by
  intro h
  have hEnd := h _ _ (List.prefix_refl _) rfl
  have hCurrent := hEnd (List.mem_singleton.mpr rfl)
  exact absurd hCurrent.1 (by decide)

end Account

end Etheos.Login
