import Mathlib.Tactic.Common

/-! A connection to tables, with at most one transaction at a time. -/
namespace General

variable {τ : Type*}

structure Connection (τ : Type*) where
  stored : τ
  /-- What the transaction has made of the tables so far. -/
  working : Option τ

namespace Connection

variable (c : Connection τ) (f g : τ → τ)

/-- A change of the tables, in the transaction if there is one. -/
def exec : Connection τ :=
  match c.working with
  | some tables => { c with working := some (f tables) }
  | none => { c with stored := f c.stored }

def begin : Connection τ := { c with working := some c.stored }

def commit : Connection τ := ⟨c.working.getD c.stored, none⟩

def rollback : Connection τ := { c with working := none }

@[simp] theorem stored_begin : c.begin.stored = c.stored := rfl

@[simp] theorem working_begin : c.begin.working = some c.stored := rfl

@[simp] theorem working_commit : c.commit.working = none := rfl

@[simp] theorem stored_rollback : c.rollback.stored = c.stored := rfl

@[simp] theorem working_rollback : c.rollback.working = none := rfl

@[simp] theorem isSome_working_exec : (c.exec f).working.isSome = c.working.isSome := by
  unfold exec
  split
  case h_1 tables h => rw [h, Option.isSome_some, Option.isSome_some]
  case h_2 h => rw [h]

theorem working_exec_of_none {c : Connection τ} (h : c.working = none) : (c.exec f).working = none := by
  unfold exec
  rw [h]

theorem stored_exec_of_none {c : Connection τ} (h : c.working = none) : (c.exec f).stored = f c.stored := by
  unfold exec
  rw [h]

/-- In a transaction nothing is stored. -/
theorem stored_exec {c : Connection τ} (h : c.working.isSome) : (c.exec f).stored = c.stored := by
  unfold exec
  split
  · rfl
  case h_2 hNone =>
    rw [hNone] at h
    cases h

theorem exec_exec : (c.exec f).exec g = c.exec (g ∘ f) := by
  obtain ⟨stored, working⟩ := c
  cases working with
  | none => rfl
  | some tables => rfl

theorem exec_id : c.exec id = c := by
  obtain ⟨stored, working⟩ := c
  cases working with
  | none => rfl
  | some tables => rfl

end Connection

end General
