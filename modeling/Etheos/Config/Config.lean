import Mathlib.Algebra.Order.BigOperators.Group.List
import Mathlib.Algebra.Order.Group.Nat
import Etheos.General.Hoare
import Etheos.General.Tables
import Etheos.Packet.Processor

/-! The configuration that is read from files, where an environment variable is to have the last word. -/
namespace Etheos.ConfigFiles

open General

/-- `util::variant`, without the conversions. The double is in its bits. -/
inductive Variant
  | int (val : Int)
  | float (val : UInt64)
  | string (val : Bytes)
  | bool (val : Bool)
  deriving DecidableEq

instance : Inhabited Variant := ⟨.int 0⟩

def bytes (text : List Char) : Bytes := text.map (·.toNat.toUInt8)

section Text

/-- One of the bytes that `trim` takes away. -/
def blank (c : UInt8) : Bool := c == 32 || c == 9 || c == 10 || c == 13

/-- `util::ltrim`, which is never called without a byte. With nothing but blanks, one is taken away. -/
def ltrim (str : Bytes) : Bytes := if str.all blank then str.drop 1 else str.dropWhile blank

/-- `util::rtrim`. With nothing but blanks, all of them stay. -/
def rtrim (str : Bytes) : Bytes := if str.all blank then str else (str.reverse.dropWhile blank).reverse

def trim (str : Bytes) : Bytes := ((str.dropWhile blank).reverse.dropWhile blank).reverse

def maxLineLength : Nat := 4096

/-- What `fgets` puts into `buf` from one call to the next, with the room that is left and what
is in it so far. -/
def fgets : Nat → Bytes → Bytes → List Bytes
  | _, [], [] => []
  | _, buf, [] => [buf]
  | room, buf, c :: rest =>
      if c = 10 ∨ room = 1 then (buf ++ [c]) :: fgets (maxLineLength - 1) [] rest
      else fgets (room - 1) (buf ++ [c]) rest

/-- The key and the value of a line, where it has them. What follows a zero byte is not seen. -/
def keyValue (buf : Bytes) : Option (Bytes × Bytes) :=
  let line := trim (buf.takeWhile (· ≠ 0))
  if line.length < 1 then none
  else if line.head? = some 35 then none
  else
    match line.findIdx? (· = 61) with
    | none => none
    | some eqloc =>
        let key := rtrim (line.take eqloc)
        some (key, if line.length > eqloc + 1 then ltrim (line.drop (eqloc + 1)) else [])

def lines (text : Bytes) : List (Bytes × Bytes) := (fgets (maxLineLength - 1) [] text).filterMap keyValue

/-- The loop that replaces `\t`, `\r`, `\n` and `\\`. -/
def unescape : Bytes → Bytes
  | [] => []
  | [c] => [c]
  | c :: d :: rest =>
      if c = 92 ∧ d = 116 then 9 :: unescape rest
      else if c = 92 ∧ d = 114 then 13 :: unescape rest
      else if c = 92 ∧ d = 110 then 10 :: unescape rest
      else if c = 92 ∧ d = 92 then 92 :: unescape rest
      else c :: unescape (d :: rest)

end Text

/-- What `getenv` finds. -/
abbrev Env := Bytes → Option Bytes

/-- What `fopen` finds. -/
abbrev Files := Bytes → Option Bytes

structure Config where
  entries : Table Bytes Variant
  loadedEnvs : List Bytes
  filename : Bytes

/-- `depth` is no exception of the program. It says that the includes go too deep for the model. -/
inductive Fault
  | notFound (filename : Bytes)
  | depth
  deriving DecidableEq

abbrev Prog := EStateM Fault Config

def toupper (c : UInt8) : UInt8 := if 97 ≤ c ∧ c ≤ 122 then c - 32 else c

def envKey (key : Bytes) : Bytes := (bytes "etheos_".toList ++ key.takeWhile (· ≠ 0)).map toupper

/-- `eoserv_config_fromenv`. -/
def fromenv (env : Env) (key : Bytes) : Bytes := (env (envKey key)).getD []

namespace Config

variable (env : Env) (config : Config)

def loadFromEnvironment (key : Bytes) : Config :=
  if key ∈ config.loadedEnvs then config
  else
    let envVal := fromenv env key
    { config with
      entries := if envVal.length ≠ 0 then config.entries.insert key (.string envVal) else config.entries
      loadedEnvs := config.loadedEnvs ++ [key] }

/-- `operator[]`, read from. -/
def index (key : Bytes) : Variant × Config :=
  let config := config.loadFromEnvironment env key
  match config.entries.lookup key with
  | some val => (val, config)
  | none => (default, { config with entries := config.entries.insert key default })

/-- `operator[]`, assigned to. -/
def assign (key : Bytes) (val : Variant) : Config :=
  let config := config.loadFromEnvironment env key
  { config with entries := config.entries.insert key val }

def opened (filename : Bytes) : Config := { config with loadedEnvs := [], filename }

end Config

inductive Directive
  | required
  | included
  | assigned
  deriving DecidableEq

def Directive.of (key : Bytes) : Directive :=
  if key = bytes "REQUIRE".toList then .required
  else if key = bytes "INCLUDE".toList ∨ key = bytes "INCLUDE_NOWARN".toList then .included
  else .assigned

/-- One line of a file. `read` is for the files that it includes. -/
def readLine (env : Env) (read : Bytes → Prog Unit) (key val : Bytes) : Prog Unit :=
  match Directive.of key with
  | .required => read val
  | .included => tryCatch (read val) fun
      | .notFound _ => return ()
      | .depth => throw .depth
  | .assigned => modify (·.assign env key (.string (unescape val)))

def readLines (env : Env) (read : Bytes → Prog Unit) : List (Bytes × Bytes) → Prog Unit
  | [] => return ()
  | (key, val) :: rest => do
      readLine env read key val
      readLines env read rest

/-- `Config::Read`, with files that are included up to a depth. -/
def readWithin (env : Env) (files : Files) : Nat → Bytes → Prog Unit
  | 0, _ => throw .depth
  | depth + 1, filename => do
      modify (·.opened filename)
      match files filename with
      | none => throw (.notFound filename)
      | some text => readLines env (readWithin env files depth) (lines text)

/-- The files that a file includes. -/
def includes (text : Bytes) : List Bytes :=
  (lines text).filterMap fun (key, val) => if Directive.of key = .assigned then none else some val

/-- A file is included by another one. -/
def Included (files : Files) (name filename : Bytes) : Prop :=
  ∃ text, files filename = some text ∧ name ∈ includes text

/-- Files that include each other in no cycle. -/
structure Tree where
  files : Files
  depth : Bytes → Nat
  acyclic : ∀ name filename, Included files name filename → depth name < depth filename

/-- Files without a cycle have depths. -/
theorem exists_tree {files : Files} (h : WellFounded (Included files)) : ∃ tree : Tree, tree.files = files := by
  classical
  let depth : Bytes → Nat := h.fix fun filename deeper =>
    ((((files filename).map includes).getD []).map fun name =>
      if hName : Included files name filename then deeper name hName + 1 else 0).sum
  refine ⟨⟨files, depth, fun name filename hIncluded => ?_⟩, rfl⟩
  obtain ⟨text, hText, hName⟩ := id hIncluded
  have hDepth : depth filename = _ := h.fix_eq _ filename
  rw [hDepth, hText]
  refine Nat.lt_of_lt_of_le ?_ (List.single_le_sum (fun _ _ => Nat.zero_le _) _ (List.mem_map.mpr ⟨name, hName, rfl⟩))
  rw [dif_pos hIncluded]
  exact Nat.lt_succ_self _

def Config.read (config : Config) (env : Env) (tree : Tree) (filename : Bytes) : EStateM.Result Fault Config Unit :=
  readWithin env tree.files (tree.depth filename + 1) filename config

end Etheos.ConfigFiles
