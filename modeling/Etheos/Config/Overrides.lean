import Mathlib.Data.List.DropRight
import Etheos.Config.Config

/-! The order in which files are read, and what an environment variable overrides then. -/
namespace Etheos.ConfigFiles

open General

inductive Event
  | opened (filename : Bytes)
  | assigned (key val : Bytes)
  deriving DecidableEq

/-- What is read from the files, and what is thrown in the end. -/
structure Order where
  events : List Event
  fault : Option Fault
  deriving DecidableEq

namespace Order

def andThen (first next : Order) : Order :=
  match first.fault with
  | none => ⟨first.events ++ next.events, next.fault⟩
  | some _ => first

/-- The file that is included may be missing, or one that it requires. -/
def included (order : Order) : Order :=
  match order.fault with
  | some (.notFound _) => ⟨order.events, none⟩
  | _ => order

def ofLine (read : Bytes → Order) (key val : Bytes) : Order :=
  match Directive.of key with
  | .required => read val
  | .included => (read val).included
  | .assigned => ⟨[.assigned key (unescape val)], none⟩

def ofLines (read : Bytes → Order) : List (Bytes × Bytes) → Order
  | [] => ⟨[], none⟩
  | (key, val) :: rest => (ofLine read key val).andThen (ofLines read rest)

def within (files : Files) : Nat → Bytes → Order
  | 0, _ => ⟨[], some .depth⟩
  | depth + 1, filename =>
      match files filename with
      | none => ⟨[.opened filename], some (.notFound filename)⟩
      | some text => andThen ⟨[.opened filename], none⟩ (ofLines (within files depth) (lines text))

end Order

def Tree.order (tree : Tree) (filename : Bytes) : Order := Order.within tree.files (tree.depth filename + 1) filename

/-- The assignments and the files in reading order. -/
def Tree.readingOrder (tree : Tree) (filename : Bytes) : List Event := (tree.order filename).events

section Following

variable (env : Env)

def Config.take (config : Config) : Event → Config
  | .opened filename => config.opened filename
  | .assigned key val => config.assign env key (.string val)

def Config.follow (config : Config) (events : List Event) : Config := events.foldl (·.take env) config

def Order.result (order : Order) (config : Config) : EStateM.Result Fault Config Unit :=
  match order.fault with
  | none => .ok () (config.follow env order.events)
  | some fault => .error fault (config.follow env order.events)

variable {env} {read : Bytes → Prog Unit} {order : Bytes → Order}

theorem follow_append (config : Config) (first next : List Event) :
    config.follow env (first ++ next) = (config.follow env first).follow env next :=
  List.foldl_append

theorem andThen_result {first next : Order} {x y : Prog Unit} {config : Config}
    (hFirst : x config = first.result env config) (hNext : ∀ config, y config = next.result env config) :
    (do x; y) config = (first.andThen next).result env config := by
  unfold Order.result at hFirst
  unfold Order.andThen
  cases hFault : first.fault with
  | none =>
      rw [hFault] at hFirst
      refine (bind_of_ok hFirst).trans ((hNext _).trans ?_)
      unfold Order.result
      dsimp only
      rw [follow_append]
  | some fault =>
      rw [hFault] at hFirst
      refine (bind_of_error hFirst).trans ?_
      unfold Order.result
      dsimp only
      rw [hFault]

theorem readLine_result (h : ∀ name config, read name config = (order name).result env config) (key val : Bytes)
    (config : Config) : readLine env read key val config = (Order.ofLine order key val).result env config := by
  unfold readLine Order.ofLine
  cases Directive.of key with
  | required => exact h val config
  | assigned => rfl
  | included =>
      have hRead := h val config
      unfold Order.result at hRead
      dsimp only
      unfold Order.included
      cases hFault : (order val).fault with
      | none =>
          rw [hFault] at hRead
          rw [tryCatch_of_ok hRead, Order.result, hFault]
      | some fault =>
          rw [hFault] at hRead
          rw [tryCatch_of_error hRead]
          cases fault with
          | notFound name => rfl
          | depth =>
              rw [Order.result, hFault]
              rfl

theorem readLines_result (h : ∀ name config, read name config = (order name).result env config)
    (rows : List (Bytes × Bytes)) (config : Config) :
    readLines env read rows config = (Order.ofLines order rows).result env config := by
  induction rows generalizing config with
  | nil => rfl
  | cons row rest ih => exact andThen_result (readLine_result h row.1 row.2 config) ih

/-- `Read` follows the reading order. -/
theorem readWithin_result (files : Files) (depth : Nat) (filename : Bytes) (config : Config) :
    readWithin env files depth filename config = (Order.within files depth filename).result env config := by
  induction depth generalizing filename config with
  | zero => rfl
  | succ depth ih =>
      unfold readWithin Order.within
      cases files filename with
      | none => rfl
      | some text =>
          have hOpened : (modify (·.opened filename) : Prog Unit) config =
              Order.result env ⟨[.opened filename], none⟩ config := rfl
          exact andThen_result hOpened (readLines_result ih (lines text))

end Following

section Termination

/-- All that is thrown is that a file is missing. -/
def Order.Ends (files : Files) (order : Order) : Prop :=
  ∀ fault, order.fault = some fault → ∃ name, fault = .notFound name ∧ files name = none

variable {files : Files}

theorem Order.Ends.andThen {first next : Order} (hFirst : first.Ends files) (hNext : next.Ends files) :
    (first.andThen next).Ends files := by
  unfold Order.andThen
  cases hFault : first.fault with
  | none => exact hNext
  | some fault => exact hFirst

theorem Order.Ends.included {order : Order} (h : order.Ends files) : order.included.Ends files := by
  unfold Order.included
  split
  · exact nofun
  · exact h

theorem ofLines_ends {order : Bytes → Order} {rows : List (Bytes × Bytes)}
    (h : ∀ row ∈ rows, Directive.of row.1 ≠ .assigned → (order row.2).Ends files) :
    (Order.ofLines order rows).Ends files := by
  induction rows with
  | nil => exact nofun
  | cons row rest ih =>
      have hRow : (Order.ofLine order row.1 row.2).Ends files := by
        have hFirst := h row (List.mem_cons_self ..)
        unfold Order.ofLine
        cases hKind : Directive.of row.1 with
        | required => exact hFirst (by rw [hKind]; exact nofun)
        | included => exact (hFirst (by rw [hKind]; exact nofun)).included
        | assigned => exact nofun
      exact hRow.andThen (ih fun other hOther => h other (List.mem_cons_of_mem _ hOther))

theorem mem_includes {text : Bytes} {row : Bytes × Bytes} (hRow : row ∈ lines text)
    (hKind : Directive.of row.1 ≠ .assigned) : row.2 ∈ includes text :=
  List.mem_filterMap.mpr ⟨row, hRow, if_neg hKind⟩

/-- The depth of the file is enough to read it. -/
theorem within_ends (tree : Tree) {depth : Nat} {filename : Bytes} (h : tree.depth filename < depth) :
    (Order.within tree.files depth filename).Ends tree.files := by
  induction depth generalizing filename with
  | zero => exact absurd h (Nat.not_lt_zero _)
  | succ depth ih =>
      unfold Order.within
      cases hText : tree.files filename with
      | none =>
          intro fault hFault
          obtain rfl := Option.some.inj hFault
          exact ⟨filename, rfl, hText⟩
      | some text =>
          have hOpened : Order.Ends tree.files ⟨[.opened filename], none⟩ := nofun
          refine hOpened.andThen (ofLines_ends fun row hRow hKind => ih ?_)
          have hDeeper := tree.acyclic row.2 filename ⟨text, hText, mem_includes hRow hKind⟩
          exact Nat.lt_of_lt_of_le hDeeper (Nat.le_of_lt_succ h)

end Termination

section Overrides

def Event.isOpened : Event → Bool
  | .opened _ => true
  | .assigned _ _ => false

def Event.assignment (key : Bytes) : Event → Option Bytes
  | .opened _ => none
  | .assigned other val => if other = key then some val else none

/-- The last assignment of the key in reading order. -/
def lastAssigned (key : Bytes) (events : List Event) : Option Bytes :=
  (events.filterMap (·.assignment key)).getLast?

/-- What is read behind the start of the last file. -/
def sinceOpened (events : List Event) : List Event := events.rtakeWhile (!·.isOpened)

variable {env : Env} {config : Config} {key : Bytes}

theorem lastAssigned_append (first next : List Event) :
    lastAssigned key (first ++ next) = (lastAssigned key next).or (lastAssigned key first) := by
  unfold lastAssigned
  rw [List.filterMap_append, List.getLast?_append]

theorem lastAssigned_concat (events : List Event) (event : Event) :
    lastAssigned key (events ++ [event]) = (event.assignment key).or (lastAssigned key events) := by
  rw [lastAssigned_append]
  unfold lastAssigned
  cases hVal : event.assignment key with
  | none => simp [hVal]
  | some val => simp [hVal]

theorem sinceOpened_opened (events : List Event) (filename : Bytes) :
    sinceOpened (events ++ [.opened filename]) = [] :=
  List.rtakeWhile_concat_neg _ _ _ Bool.false_ne_true

theorem sinceOpened_assigned (events : List Event) (other val : Bytes) :
    sinceOpened (events ++ [.assigned other val]) = sinceOpened events ++ [.assigned other val] :=
  List.rtakeWhile_concat_pos _ _ _ rfl

theorem follow_concat (events : List Event) (event : Event) :
    config.follow env (events ++ [event]) = (config.follow env events).take env event :=
  follow_append config events [event]

theorem isSome_of_sinceOpened {events : List Event} (h : (lastAssigned key (sinceOpened events)).isSome = true) :
    (lastAssigned key events).isSome = true := by
  obtain ⟨front, hEvents⟩ : sinceOpened events <:+ events := List.rtakeWhile_suffix _ _
  rw [← hEvents, lastAssigned_append, Option.isSome_or, h, Bool.true_or]

theorem mem_loadedEnvs_assign {other : Bytes} {val : Variant} :
    key ∈ (config.assign env other val).loadedEnvs ↔ key = other ∨ key ∈ config.loadedEnvs := by
  unfold Config.assign Config.loadFromEnvironment
  split
  case isTrue hLoaded =>
    refine ⟨.inr, ?_⟩
    rintro (rfl | hKey)
    · exact hLoaded
    · exact hKey
  case isFalse =>
    dsimp only
    rw [List.mem_append, List.mem_singleton, or_comm]

theorem lookup_loadFromEnvironment_ne {other : Bytes} (h : key ≠ other) :
    (config.loadFromEnvironment env other).entries.lookup key = config.entries.lookup key := by
  unfold Config.loadFromEnvironment
  split
  · rfl
  · dsimp only
    split
    · exact AList.lookup_insert_ne h
    · rfl

theorem lookup_assign {other : Bytes} {val : Variant} :
    (config.assign env other val).entries.lookup key = if key = other then some val else config.entries.lookup key := by
  unfold Config.assign
  dsimp only
  rw [Table.lookup_insert_eq]
  split
  · rfl
  case isFalse hOther => exact lookup_loadFromEnvironment_ne hOther

/-- The environment is not looked at again for a key that was assigned since the last file
was opened. -/
theorem mem_loadedEnvs_follow (hNone : config.loadedEnvs = []) (events : List Event) :
    key ∈ (config.follow env events).loadedEnvs ↔ (lastAssigned key (sinceOpened events)).isSome = true := by
  induction events using List.reverseRecOn with
  | nil =>
      change key ∈ config.loadedEnvs ↔ _
      rw [hNone]
      exact iff_of_false List.not_mem_nil Bool.false_ne_true
  | append_singleton events event ih =>
      rw [follow_concat]
      cases event with
      | opened filename =>
          rw [sinceOpened_opened]
          exact iff_of_false List.not_mem_nil Bool.false_ne_true
      | assigned other val =>
          rw [sinceOpened_assigned, lastAssigned_concat]
          refine mem_loadedEnvs_assign.trans ?_
          rw [ih, Event.assignment]
          by_cases hKey : other = key
          · simp [hKey]
          · simp [hKey, Ne.symm hKey]

/-- What is in the entries is the last assignment. -/
theorem lookup_follow (events : List Event) :
    (config.follow env events).entries.lookup key =
      ((lastAssigned key events).map .string).or (config.entries.lookup key) := by
  induction events using List.reverseRecOn with
  | nil => rfl
  | append_singleton events event ih =>
      rw [follow_concat, lastAssigned_concat]
      cases event with
      | opened filename => exact ih
      | assigned other val =>
          refine lookup_assign.trans ?_
          rw [ih, Event.assignment]
          by_cases hKey : other = key
          · simp [hKey]
          · simp [hKey, Ne.symm hKey]

/-- What comes first is that the file is opened. -/
theorem follow_readingOrder (tree : Tree) (filename : Bytes) :
    config.follow env (tree.readingOrder filename) =
      (config.opened filename).follow env (tree.readingOrder filename) := by
  unfold Tree.readingOrder Tree.order Order.within
  cases tree.files filename with
  | none => rfl
  | some text => rfl

section Index

theorem index_fst : (config.index env key).1 =
    ((config.loadFromEnvironment env key).entries.lookup key).getD default := by
  unfold Config.index
  dsimp only
  cases (config.loadFromEnvironment env key).entries.lookup key with
  | none => rfl
  | some val => rfl

theorem index_of_loaded (h : key ∈ config.loadedEnvs) :
    (config.index env key).1 = (config.entries.lookup key).getD default := by
  rw [index_fst, Config.loadFromEnvironment, if_pos h]

theorem index_of_unset (h : fromenv env key = []) :
    (config.index env key).1 = (config.entries.lookup key).getD default := by
  by_cases hLoaded : key ∈ config.loadedEnvs
  · exact index_of_loaded hLoaded
  · rw [index_fst, Config.loadFromEnvironment, if_neg hLoaded]
    simp [h]

theorem index_of_set (hLoaded : key ∉ config.loadedEnvs) (h : fromenv env key ≠ []) :
    (config.index env key).1 = .string (fromenv env key) := by
  rw [index_fst, Config.loadFromEnvironment, if_neg hLoaded]
  simp [h, AList.lookup_insert]

end Index

/-- The environment variable, or else the last assignment. A key that was never assigned
is as it was. -/
def Config.expected (env : Env) (config : Config) (events : List Event) (key : Bytes) : Variant :=
  if fromenv env key ≠ [] then .string (fromenv env key)
  else (((lastAssigned key events).map .string).or (config.entries.lookup key)).getD default

/-- Where the variable is set, the key is not assigned behind the start of the last file, or
the last assignment says the same. -/
def Overridden (env : Env) (events : List Event) (key : Bytes) : Prop :=
  fromenv env key ≠ [] →
    lastAssigned key (sinceOpened events) = none ∨ lastAssigned key events = some (fromenv env key)

end Overrides

/-- The environment overrides the files, exactly if the key is assigned early enough. The files are read, or
one is missing. -/
theorem environment_overrides_iff (env : Env) (tree : Tree) (filename : Bytes) (config : Config) (key : Bytes) :
    match config.read env tree filename with
    | .ok _ next =>
        (next.index env key).1 = config.expected env (tree.readingOrder filename) key ↔
          Overridden env (tree.readingOrder filename) key
    | .error fault _ => ∃ name, fault = .notFound name ∧ tree.files name = none := by
  have hRead : config.read env tree filename = (tree.order filename).result env config :=
    readWithin_result tree.files _ filename config
  rw [hRead]
  unfold Order.result
  cases hFault : (tree.order filename).fault with
  | some fault => exact within_ends tree (Nat.lt_succ_self _) fault hFault
  | none =>
      dsimp only
      change ((config.follow env (tree.readingOrder filename)).index env key).1 = _ ↔ _
      rw [follow_readingOrder]
      have hLoaded : key ∈ ((config.opened filename).follow env (tree.readingOrder filename)).loadedEnvs ↔ _ :=
        mem_loadedEnvs_follow rfl _
      have hLookup : ((config.opened filename).follow env (tree.readingOrder filename)).entries.lookup key = _ :=
        lookup_follow _
      unfold Config.expected Overridden
      by_cases hEnv : fromenv env key = []
      · rw [index_of_unset hEnv, hLookup, if_neg (not_not_intro hEnv)]
        exact iff_of_true rfl fun h => absurd hEnv h
      · rw [if_pos hEnv, forall_prop_of_true hEnv]
        by_cases hLate : (lastAssigned key (sinceOpened (tree.readingOrder filename))).isSome = true
        · obtain ⟨val, hVal⟩ := Option.isSome_iff_exists.mp (isSome_of_sinceOpened hLate)
          rw [index_of_loaded (hLoaded.mpr hLate), hLookup, hVal, or_iff_right (Option.isSome_iff_ne_none.mp hLate)]
          simp
        · rw [index_of_set (mt hLoaded.mp hLate) hEnv]
          exact iff_of_true rfl (.inl (Option.not_isSome_iff_eq_none.mp hLate))

/-- One file with `Port = 8078`. -/
def portTree : Tree where
  files filename := if filename = bytes "config.ini".toList then some (bytes "Port = 8078\n".toList) else none
  depth _ := 0
  acyclic name filename hIncluded := by
    obtain ⟨text, hText, hName⟩ := hIncluded
    dsimp only at hText
    split at hText
    · obtain rfl := Option.some.inj hText
      have hNone : includes (bytes "Port = 8078\n".toList) = [] := by decide
      rw [hNone] at hName
      cases hName
    · cases hText

def portEnv : Env := fun key => if key = bytes "ETHEOS_PORT".toList then some (bytes "12345".toList) else none

/-- The port of the file is used, and not that of the environment. -/
theorem port_is_not_overridden :
    ∃ next, (⟨∅, [], []⟩ : Config).read portEnv portTree (bytes "config.ini".toList) = .ok () next ∧
      (next.index portEnv (bytes "Port".toList)).1 = .string (bytes "8078".toList) ∧
      fromenv portEnv (bytes "Port".toList) = bytes "12345".toList := by
  have hPort : (match (⟨∅, [], []⟩ : Config).read portEnv portTree (bytes "config.ini".toList) with
      | .ok _ next => some (next.index portEnv (bytes "Port".toList)).1
      | .error _ _ => none) = some (.string (bytes "8078".toList)) := by decide +kernel
  cases hRead : (⟨∅, [], []⟩ : Config).read portEnv portTree (bytes "config.ini".toList) with
  | ok _ next =>
      rw [hRead] at hPort
      exact ⟨next, rfl, Option.some.inj hPort, by decide +kernel⟩
  | error fault next =>
      rw [hRead] at hPort
      cases hPort

end Etheos.ConfigFiles
