import Etheos.General.Tables
import Etheos.Packet.Processor
import Mathlib.Logic.Relation

/-! Commands, and who may use them. -/
namespace Etheos.Commands

open General

/-- `ADMIN_HGM`. -/
def adminHgm : Int := 4

structure Info where
  name : Bytes
  arguments : List Bytes
  partialMinChars : Nat
  requireCharacter : Bool
  dutyRestrict : Bool
  deriving DecidableEq

/-- Each command is found under its own name. The loop over all of them does not depend on their order. -/
structure Register where
  handlers : Table Bytes Info
  named : ∀ name handler, handlers.lookup name = some handler → handler.name = name
  aliases : Table Bytes Bytes

/-- Whoever gives the command, and the levels that are configured for commands. -/
structure Source where
  access : Int
  dutyAccess : Int
  hasCharacter : Bool
  adminConfig : Table Bytes Int

inductive Message
  | unknownCommand
  | commandNotEnoughArguments
  deriving DecidableEq

/-- The function of a command is known by what it is registered with. -/
inductive Effect
  | call (handler : Info) (arguments : List Bytes)
  | serverMsg (message : Message)
  | warn
  deriving DecidableEq

namespace Register

def empty : Register := ⟨∅, by simp, ∅⟩

/-- A name that is taken keeps its command. -/
def insert (r : Register) (info : Info) : Register :=
  if (r.handlers.lookup info.name).isSome then r
  else { r with
    handlers := r.handlers.insert info.name info
    named := by
      intro name handler hLookup
      rw [Table.lookup_insert_eq] at hLookup
      split at hLookup
      next hName => rw [hName, ← Option.some.inj hLookup]
      next => exact r.named name handler hLookup }

/-- `Register`. -/
def register (r : Register) (info : Info) (dutyRestrict : Bool) : Register :=
  r.insert { info with
    partialMinChars :=
      if info.partialMinChars < 1 then 1
      else if info.partialMinChars > info.name.length then info.name.length
      else info.partialMinChars
    dutyRestrict := info.dutyRestrict || dutyRestrict }

def registerAlias (r : Register) (name command : Bytes) : Register :=
  if (r.aliases.lookup name).isSome then r else { r with aliases := r.aliases.insert name command }

/-- All commands, in some order. -/
def commands (r : Register) : List Info := r.handlers.select fun _ handler => some handler

end Register

/-- The level that `admin_config` has for the name. -/
def Source.required (source : Source) (name : Bytes) : Int :=
  (source.adminConfig.lookup name).getD adminHgm

/-- The check that the source makes in two places. -/
def Source.mayUse (source : Source) (name : Bytes) (handler : Info) : Bool :=
  let access := if handler.dutyRestrict then source.dutyAccess else source.access
  !(access < source.required name || (handler.requireCharacter && !source.hasCharacter))

/-- `command` is long enough for an abbreviation of the name, and agrees with it. -/
def abbreviates (command : Bytes) (handler : Info) : Bool :=
  let start := handler.name.take (max command.length handler.partialMinChars)
  !(command.length < handler.partialMinChars || handler.name.length ≤ command.length) &&
    command.take start.length == start

/-- The loop over all commands. It stops at the second one that would do. -/
def search (source : Source) (command : Bytes) : List Info → Option Info → Option (Option Info)
  | [], found => some found
  | handler :: rest, found =>
      if abbreviates command handler && source.mayUse handler.name handler then
        if found.isSome then none else search source command rest (some handler)
      else search source command rest found

/-- `Handle`, with the number of aliases that may still follow each other. -/
def handle (r : Register) (source : Source) (arguments : List Bytes) : Nat → Bytes → Bool × List Effect
  | _, [] => (false, [.serverMsg .unknownCommand])
  | 0, _ => (false, [.warn])
  | left + 1, command =>
      match (r.handlers.lookup command).filter (·.arguments.length ≤ arguments.length) with
      | some handler =>
          if source.mayUse command handler then (true, [.call handler arguments])
          else (false, [.serverMsg .unknownCommand])
      | none =>
          match r.aliases.lookup command with
          | some other => handle r source arguments left other
          | none =>
              match search source command (r.commands) none with
              | some (some handler) =>
                  if handler.arguments.length > arguments.length then
                    (false, [.serverMsg .commandNotEnoughArguments])
                  else (true, [.call handler arguments])
              | _ => (false, [.serverMsg .unknownCommand])

/-- `Handle`, as it is called for a command that was typed. -/
def handleTyped (r : Register) (source : Source) (command : Bytes) (arguments : List Bytes) : Bool × List Effect :=
  handle r source arguments 101 command

section Authorization

variable {r : Register} {source : Source} {command : Bytes} {arguments : List Bytes} {handler : Info}

/-- The command is abbreviated, and no other one that the source may use is. -/
def Unambiguous (r : Register) (source : Source) (command : Bytes) (handler : Info) : Prop :=
  abbreviates command handler ∧ ∀ name other, r.handlers.lookup name = some other → abbreviates command other →
    source.mayUse name other → other = handler

/-- What was typed is the name of the command or an abbreviation, or there are aliases that lead
from it to one of them. -/
def Reached (r : Register) (source : Source) (command : Bytes) (handler : Info) : Prop :=
  ∃ last, Relation.ReflTransGen (fun name other => r.aliases.lookup name = some other) command last ∧
    (handler.name = last ∨ Unambiguous r source last handler)

/-- The source has the level that is configured for the full name, and is a character where one is needed. -/
structure Authorized (r : Register) (source : Source) (arguments : List Bytes) (handler : Info) : Prop where
  known : r.handlers.lookup handler.name = some handler
  access : source.required handler.name ≤ if handler.dutyRestrict then source.dutyAccess else source.access
  character : handler.requireCharacter → source.hasCharacter
  arguments : handler.arguments.length ≤ arguments.length

theorem mayUse_iff {name : Bytes} : source.mayUse name handler ↔
    (source.required name ≤ if handler.dutyRestrict then source.dutyAccess else source.access) ∧
      (handler.requireCharacter → source.hasCharacter) := by
  unfold Source.mayUse
  cases handler.requireCharacter <;> simp

theorem mem_commands : handler ∈ r.commands ↔ r.handlers.lookup handler.name = some handler := by
  unfold Register.commands Table.select
  rw [List.mem_filterMap]
  constructor
  · rintro ⟨entry, hEntry, hHandler⟩
    obtain rfl := Option.some.inj hHandler
    have hLookup : r.handlers.lookup entry.1 = some entry.2 := AList.mem_lookup_iff.mpr hEntry
    rwa [r.named _ _ hLookup]
  · intro hLookup
    exact ⟨⟨handler.name, handler⟩, AList.mem_lookup_iff.mp hLookup, rfl⟩

/-- Behind a command that would do there is no other one. -/
theorem search_found {handlers : List Info} {first : Info}
    (h : search source command handlers (some first) = some (some handler)) :
    first = handler ∧ ∀ other ∈ handlers, ¬(abbreviates command other && source.mayUse other.name other) := by
  induction handlers with
  | nil => exact ⟨Option.some.inj (Option.some.inj h), by simp⟩
  | cons next rest ih =>
      unfold search at h
      split at h
      next => simp at h
      next hNext =>
        obtain ⟨hFirst, hRest⟩ := ih h
        exact ⟨hFirst, List.forall_mem_cons.mpr ⟨hNext, hRest⟩⟩

/-- The command that the loop ends with is the only one that would do. -/
theorem search_unique {handlers : List Info} (h : search source command handlers none = some (some handler)) :
    (handler ∈ handlers ∧ abbreviates command handler ∧ source.mayUse handler.name handler) ∧
      ∀ other ∈ handlers, abbreviates command other → source.mayUse other.name other → other = handler := by
  induction handlers with
  | nil => simp [search] at h
  | cons first rest ih =>
      unfold search at h
      split at h
      next hDoes =>
        obtain ⟨rfl, hRest⟩ := search_found h
        refine ⟨⟨List.mem_cons_self, Bool.and_eq_true_iff.mp hDoes⟩, fun other hOther hShort hMay => ?_⟩
        obtain rfl | hLater := List.mem_cons.mp hOther
        · rfl
        · exact absurd (Bool.and_eq_true_iff.mpr ⟨hShort, hMay⟩) (hRest other hLater)
      next hDoesNot =>
        obtain ⟨⟨hMember, hBoth⟩, hRest⟩ := ih h
        refine ⟨⟨List.mem_cons_of_mem _ hMember, hBoth⟩, fun other hOther hShort hMay => ?_⟩
        obtain rfl | hLater := List.mem_cons.mp hOther
        · exact absurd (Bool.and_eq_true_iff.mpr ⟨hShort, hMay⟩) hDoesNot
        · exact hRest other hLater hShort hMay

/-- What is done is one call at most, and that is one of a command that is authorized and was meant. -/
def Proper (r : Register) (source : Source) (arguments : List Bytes) (command : Bytes)
    (handled : Bool × List Effect) : Prop :=
  (handled.1 = false ∧ ∀ handler given, .call handler given ∉ handled.2) ∨
    ∃ handler, handled = (true, [.call handler arguments]) ∧ Authorized r source arguments handler ∧
      Reached r source command handler

theorem Reached.alias {other : Bytes} (hAlias : r.aliases.lookup command = some other)
    (h : Reached r source other handler) : Reached r source command handler := by
  obtain ⟨last, hLeads, hLast⟩ := h
  exact ⟨last, hLeads.head hAlias, hLast⟩

/-- The command itself, without an alias. -/
theorem Reached.self (h : handler.name = command ∨ Unambiguous r source command handler) :
    Reached r source command handler :=
  ⟨command, .refl, h⟩

theorem proper_refused {effect : Effect} (h : ∀ handler given, effect ≠ .call handler given) :
    Proper r source arguments command (false, [effect]) := by
  refine .inl ⟨rfl, fun handler given hCall => ?_⟩
  exact h handler given (List.mem_singleton.mp hCall).symm

theorem handle_proper (left : Nat) : Proper r source arguments command (handle r source arguments left command) := by
  induction left generalizing command with
  | zero =>
      cases command with
      | nil => exact proper_refused (by simp)
      | cons => exact proper_refused (by simp)
  | succ left ih =>
      cases command with
      | nil => exact proper_refused (by simp)
      | cons first rest =>
          unfold handle
          split
          next handler hExact =>
            obtain ⟨hFound, hEnough⟩ := Option.filter_eq_some_iff.mp hExact
            have hName := r.named _ _ hFound
            split
            next hMay =>
              obtain ⟨hAccess, hCharacter⟩ := mayUse_iff.mp hMay
              rw [← hName] at hAccess hFound
              exact .inr ⟨handler, rfl, ⟨hFound, hAccess, hCharacter, by simpa using hEnough⟩, .self (.inl hName)⟩
            next => exact proper_refused (by simp)
          next =>
            split
            next other hAlias =>
              obtain hRefused | ⟨handler, hCall, hAuthorized, hReached⟩ := @ih other
              · exact .inl hRefused
              · exact .inr ⟨handler, hCall, hAuthorized, hReached.alias hAlias⟩
            next =>
              split
              next handler hSearch =>
                split
                next => exact proper_refused (by simp)
                next hEnough =>
                  obtain ⟨⟨hMember, hShort, hMay⟩, hOnly⟩ := search_unique hSearch
                  obtain ⟨hAccess, hCharacter⟩ := mayUse_iff.mp hMay
                  refine .inr ⟨handler, rfl, ⟨mem_commands.mp hMember, hAccess, hCharacter, by omega⟩, .self (.inr ?_)⟩
                  refine ⟨hShort, fun name other hLookup hOther hMayOther => ?_⟩
                  obtain rfl := r.named name other hLookup
                  exact hOnly other (mem_commands.mpr hLookup) hOther hMayOther
              next => exact proper_refused (by simp)

/-- Whatever is typed, only authorized commands are run. -/
theorem handleTyped_proper (r : Register) (source : Source) (command : Bytes) (arguments : List Bytes) :
    Proper r source arguments command (handleTyped r source command arguments) :=
  handle_proper 101

/-- Two aliases that lead to each other. -/
example : handleTyped ((Register.empty.registerAlias [97] [98]).registerAlias [98] [97]) ⟨4, 4, true, ∅⟩ [97] [] =
    (false, [.warn]) := by
  decide

end Authorization

end Etheos.Commands
