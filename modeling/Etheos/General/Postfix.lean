import Mathlib.Data.List.OfFn
import Mathlib.Tactic.Common

/-! Expressions in postfix, read by a machine with a stack. The last argument is
written first, so that the first one is on top. -/
namespace General.Postfix

variable {ι ν τ α : Type} {arity : ι → Nat}

/-- Operators know how many arguments they have. -/
inductive Term (arity : ι → Nat) (ν : Type)
  | leaf (v : ν)
  | apply (f : ι) (args : Fin (arity f) → Term arity ν)

namespace Term

def write (leaf : ν → τ) (op : ι → τ) : Term arity ν → List τ
  | .leaf v => [leaf v]
  | apply f args => (List.ofFn fun i => (args i).write leaf op).reverse.flatten ++ [op f]

def value (leaf : ν → α) (op : (f : ι) → (Fin (arity f) → α) → α) : Term arity ν → α
  | .leaf v => leaf v
  | apply f args => op f fun i => (args i).value leaf op

/-- A term is a part of itself. -/
inductive Part : Term arity ν → Term arity ν → Prop
  | refl (t : Term arity ν) : Part t t
  | arg {s : Term arity ν} {f : ι} {args : Fin (arity f) → Term arity ν} (i : Fin (arity f))
      (h : Part s (args i)) : Part s (apply f args)

/-- Something holds at every leaf and, of the values of the arguments, at every operator. -/
def Everywhere (leaf : ν → α) (op : (f : ι) → (Fin (arity f) → α) → α) (L : ν → Prop)
    (N : (f : ι) → (Fin (arity f) → α) → Prop) : Term arity ν → Prop
  | .leaf v => L v
  | apply f args => (∀ i, (args i).Everywhere leaf op L N) ∧ N f fun i => (args i).value leaf op

end Term

section Machine

variable (step : τ → List α → Option (List α))

/-- The stack after the tokens. -/
def exec (tokens : List τ) (stack : List α) : Option (List α) := tokens.foldlM (fun s t => step t s) stack

def result (tokens : List τ) : Option α := (exec step tokens []).bind List.head?

variable {step}

theorem exec_append (tokens more : List τ) (stack : List α) :
    exec step (tokens ++ more) stack = (exec step tokens stack).bind (exec step more) :=
  List.foldlM_append

theorem exec_cons (t : τ) (tokens : List τ) (stack : List α) :
    exec step (t :: tokens) stack = (step t stack).bind (exec step tokens) :=
  List.foldlM_cons

theorem exec_single (t : τ) (stack : List α) : exec step [t] stack = step t stack := by
  simp [exec]

theorem result_of_exec {tokens : List τ} {v : α} (h : exec step tokens [] = some [v]) :
    result step tokens = some v := by
  rw [result, h]
  rfl

/-- Pieces that push a value each push all values, the first one last. -/
theorem exec_pieces {n : Nat} {pieces : Fin n → List τ} {values : Fin n → α}
    (h : ∀ i stack, exec step (pieces i) stack = some (values i :: stack)) (stack : List α) :
    exec step (List.ofFn pieces).reverse.flatten stack = some (List.ofFn values ++ stack) := by
  induction n with
  | zero =>
      rw [List.ofFn_zero, List.ofFn_zero]
      rfl
  | succ n ih =>
      have hRest := ih (fun i => h i.succ)
      rw [List.ofFn_succ, List.reverse_cons, List.flatten_append, exec_append, hRest, List.flatten_singleton,
        Option.bind_some, h, List.ofFn_succ, List.cons_append]

variable {leaf : ν → τ} {op : ι → τ} {leafValue : ν → α} {opValue : (f : ι) → (Fin (arity f) → α) → α}
  {L : ν → Prop} {N : (f : ι) → (Fin (arity f) → α) → Prop}

/-- Where the machine understands every leaf and every operator it pushes the value. -/
theorem exec_write (hLeaf : ∀ v, L v → ∀ stack, step (leaf v) stack = some (leafValue v :: stack))
    (hOp : ∀ f x, N f x → ∀ stack, step (op f) (List.ofFn x ++ stack) = some (opValue f x :: stack))
    {t : Term arity ν} (ht : t.Everywhere leafValue opValue L N) (stack : List α) :
    exec step (t.write leaf op) stack = some (t.value leafValue opValue :: stack) := by
  induction t generalizing stack with
  | leaf v => exact (exec_single _ _).trans (hLeaf v ht stack)
  | apply f args ih =>
      have hArgs := exec_pieces (fun i => ih i (ht.1 i)) stack
      rw [Term.write, exec_append, hArgs, Option.bind_some, exec_single]
      exact hOp f _ ht.2 stack

/-- The machine is right about all parts of a term exactly if it understands them. -/
theorem result_parts (hLeaf : ∀ v, L v → ∀ stack, step (leaf v) stack = some (leafValue v :: stack))
    (hOp : ∀ f x, N f x → ∀ stack, step (op f) (List.ofFn x ++ stack) = some (opValue f x :: stack))
    (hOtherLeaf : ∀ v, result step [leaf v] = some (leafValue v) → L v)
    (hOtherOp : ∀ f x, (step (op f) (List.ofFn x)).bind List.head? = some (opValue f x) → N f x)
    (t : Term arity ν) :
    (∀ part, Term.Part part t → result step (part.write leaf op) = some (part.value leafValue opValue)) ↔
      t.Everywhere leafValue opValue L N := by
  constructor
  · intro h
    induction t with
    | leaf v => exact hOtherLeaf v (h _ (.refl _))
    | apply f args ih =>
        have hArgs : ∀ i, (args i).Everywhere leafValue opValue L N := fun i =>
          ih i fun part hPart => h part (.arg i hPart)
        refine ⟨hArgs, hOtherOp f _ ?_⟩
        have hWhole := h _ (.refl _)
        have hPushed := exec_pieces (fun i => exec_write hLeaf hOp (hArgs i)) []
        rw [result, Term.write, exec_append, hPushed, Option.bind_some, exec_single, List.append_nil] at hWhole
        exact hWhole
  · intro ht part hPart
    induction hPart with
    | refl => exact result_of_exec (exec_write hLeaf hOp ht [])
    | arg i _ ih => exact ih (ht.1 i)

end Machine

end General.Postfix
