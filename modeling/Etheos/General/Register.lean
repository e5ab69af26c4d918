import Etheos.General.Entries
import Mathlib.Logic.Function.Basic

/-! Membership that is written down three times: with every person that is
present, in the rolls that are open, and in the records of all persons. The
record of somebody who is active may be out of date. -/
namespace General

variable {Name Tag Rank : Type*}

/-- An entry of a roll. -/
structure Entry (Name Rank : Type*) where
  name : Name
  rank : Rank
  deriving Repr, DecidableEq

/-- The organisation that somebody belongs to, and the rank. -/
abbrev Place (Tag Rank : Type*) := Option (Tag × Rank)

structure Person (Tag Rank : Type*) where
  active : Bool
  place : Place Tag Rank

@[ext] structure Register (Name Tag Rank : Type*) where
  people : Name → Option (Person Tag Rank)
  records : Name → Option (Place Tag Rank)
  rolls : Tag → Option (List (Entry Name Rank))

/-- No organisation but this one. -/
def Place.Within (place : Place Tag Rank) (tag : Tag) : Prop :=
  ∀ own rank, place = some (own, rank) → own = tag

section Rolls

variable [DecidableEq Name]

/-- The entries that a roll has for a name. -/
def listed (name : Name) (roll : List (Entry Name Rank)) : List (Entry Name Rank) :=
  roll.filter (·.name = name)

variable {name other : Name} {roll : List (Entry Name Rank)}

theorem listed_append_self (rank : Rank) :
    listed name (roll ++ [⟨name, rank⟩]) = listed name roll ++ [⟨name, rank⟩] := by
  simp [listed]

theorem listed_append_other (h : other ≠ name) (rank : Rank) :
    listed other (roll ++ [⟨name, rank⟩]) = listed other roll := by
  simp [listed, Ne.symm h]

theorem listed_ne_nil {entry : Entry Name Rank} (h : entry ∈ roll) : listed entry.name roll ≠ [] := by
  intro hNil
  simpa using List.filter_eq_nil_iff.mp hNil entry h

theorem listed_erase_self :
    listed name (Entries.eraseFirst (·.name = name) roll) = (listed name roll).tail :=
  Entries.filter_eraseFirst

theorem listed_erase_other (h : other ≠ name) :
    listed other (Entries.eraseFirst (·.name = name) roll) = listed other roll :=
  Entries.filter_eraseFirst_of_not fun _ hName hOther => h (hOther.symm.trans hName)

theorem listed_modify_self (rank : Rank) :
    listed name (Entries.modifyFirst (·.name = name) ({ · with rank := rank }) roll) =
      (listed name roll).modifyHead ({ · with rank := rank }) :=
  Entries.filter_modifyFirst fun _ hName => hName

theorem listed_modify_other (h : other ≠ name) (rank : Rank) :
    listed other (Entries.modifyFirst (·.name = name) ({ · with rank := rank }) roll) =
      listed other roll :=
  Entries.filter_modifyFirst_of_not fun _ hName =>
    ⟨fun hOther => h (hOther.symm.trans hName), fun hOther => h (hOther.symm.trans hName)⟩

end Rolls

/-- The entries that the roll should have for somebody with the place. -/
def Place.entries [DecidableEq Tag] (place : Place Tag Rank) (name : Name) (tag : Tag) : List (Entry Name Rank) :=
  match place with
  | some (own, rank) => if own = tag then [⟨name, rank⟩] else []
  | none => []

namespace Place

variable {place : Place Tag Rank} {name : Name} {tag : Tag}

theorem within_none (tag : Tag) : Place.Within (none : Place Tag Rank) tag := by
  intro own rank h
  cases h

variable [DecidableEq Tag]

theorem entries_own (tag : Tag) (rank : Rank) (name : Name) :
    Place.entries (some (tag, rank)) name tag = [⟨name, rank⟩] := if_pos rfl

theorem entries_other {own : Tag} (h : own ≠ tag) (rank : Rank) (name : Name) :
    Place.entries (some (own, rank)) name tag = [] := if_neg h

theorem entries_tail : (place.entries name tag).tail = [] := by
  unfold entries
  split
  · split <;> rfl
  · rfl

/-- Only the roll of the own organisation has an entry. -/
theorem Within.entries_other (h : place.Within tag) {other : Tag} (hOther : other ≠ tag) :
    place.entries name other = [] := by
  cases place with
  | none => rfl
  | some own =>
      obtain rfl := h own.1 own.2 rfl
      exact if_neg (Ne.symm hOther)

theorem within_of_entries (h : place.entries name tag ≠ []) : place.Within tag := by
  rintro own rank rfl
  exact Decidable.of_not_not fun hOwn => h (if_neg hOwn)

/-- The rank is changed, at the place and in the entry. -/
theorem entries_rank (place : Place Tag Rank) (name : Name) (tag : Tag) (rank : Rank) :
    Place.entries (place.map fun own => (own.1, rank)) name tag =
      (place.entries name tag).modifyHead ({ · with rank := rank }) := by
  cases place with
  | none => rfl
  | some own =>
      unfold entries
      rw [Option.map_some]
      dsimp only
      split <;> rfl

end Place

namespace Register

section Rolls

variable [DecidableEq Tag] (R : Register Name Tag Rank) (tag : Tag)

def setRoll (roll : Option (List (Entry Name Rank))) : Register Name Tag Rank :=
  { R with rolls := Function.update R.rolls tag roll }

def changeRoll (f : List (Entry Name Rank) → List (Entry Name Rank)) : Register Name Tag Rank :=
  R.setRoll tag ((R.rolls tag).map f)

theorem setRoll_self (roll : Option (List (Entry Name Rank))) :
    (R.setRoll tag roll).rolls tag = roll :=
  Function.update_self ..

theorem setRoll_other (roll : Option (List (Entry Name Rank))) {other : Tag} (h : other ≠ tag) :
    (R.setRoll tag roll).rolls other = R.rolls other :=
  Function.update_of_ne h ..

/-- A roll that was closed is closed again. -/
theorem setRoll_none (roll : Option (List (Entry Name Rank))) (h : R.rolls tag = none) :
    (R.setRoll tag roll).setRoll tag none = R := by
  refine Register.ext rfl rfl ?_
  change Function.update (Function.update R.rolls tag roll) tag none = R.rolls
  rw [Function.update_idem, ← h, Function.update_eq_self]

end Rolls

section People

variable [DecidableEq Name] (R : Register Name Tag Rank) (name : Name)
  (f : Place Tag Rank → Place Tag Rank)

def isActive (R : Register Name Tag Rank) (name : Name) : Bool := (R.people name).any (·.active)

def setPerson (person : Option (Person Tag Rank)) : Register Name Tag Rank :=
  { R with people := Function.update R.people name person }

def setRecord (place : Option (Place Tag Rank)) : Register Name Tag Rank :=
  { R with records := Function.update R.records name place }

/-- The change is made at the person, and in the record of somebody who is not
active. -/
def changeMember : Register Name Tag Rank :=
  let change := fun person : Person Tag Rank => { person with place := f person.place }
  let S := R.setPerson name ((R.people name).map change)
  if R.isActive name then S else S.setRecord name ((R.records name).map f)

theorem changeMember_rolls : (R.changeMember name f).rolls = R.rolls := by
  unfold changeMember
  dsimp only
  split <;> rfl

theorem changeMember_self : (R.changeMember name f).people name =
    (R.people name).map fun person => { person with place := f person.place } := by
  unfold changeMember
  dsimp only
  split <;> exact Function.update_self ..

theorem changeMember_other {other : Name} (h : other ≠ name) :
    (R.changeMember name f).people other = R.people other := by
  unfold changeMember
  dsimp only
  split <;> exact Function.update_of_ne h ..

theorem changeMember_record_self (h : R.isActive name = false) :
    (R.changeMember name f).records name = (R.records name).map f := by
  unfold changeMember
  rw [if_neg (by simp [h])]
  exact Function.update_self ..

theorem changeMember_record_other {other : Name} (h : other ≠ name) :
    (R.changeMember name f).records other = R.records other := by
  unfold changeMember
  dsimp only
  split
  · rfl
  · exact Function.update_of_ne h ..

theorem isActive_changeMember : (R.changeMember name f).isActive name = R.isActive name := by
  unfold isActive
  rw [changeMember_self]
  cases R.people name <;> rfl

end People

variable [DecidableEq Name] [DecidableEq Tag]

section Operations

variable (R : Register Name Tag Rank) (tag : Tag) (name : Name)

def enrol (rank : Rank) : Register Name Tag Rank :=
  (R.changeMember name fun _ => some (tag, rank)).changeRoll tag (· ++ [⟨name, rank⟩])

def strike : Register Name Tag Rank :=
  (R.changeMember name fun _ => none).changeRoll tag (Entries.eraseFirst (·.name = name))

def promote (rank : Rank) : Register Name Tag Rank :=
  (R.changeMember name (·.map fun own => (own.1, rank))).changeRoll tag
    (Entries.modifyFirst (·.name = name) ({ · with rank := rank }))

end Operations

section Agreement

variable {R : Register Name Tag Rank} {name : Name} {tag : Tag}

/-- The roll has the entries for the name that it should have. -/
structure Fits (R : Register Name Tag Rank) (name : Name) (tag : Tag)
    (roll : List (Entry Name Rank)) : Prop where
  person : ∀ person, R.people name = some person → listed name roll = person.place.entries name tag
  record : R.isActive name = false → ∀ place, R.records name = some place →
    listed name roll = place.entries name tag

structure Agrees (R : Register Name Tag Rank) : Prop where
  fits : ∀ name tag roll, R.rolls tag = some roll → R.Fits name tag roll
  opened : ∀ name person own rank, R.people name = some person →
    person.place = some (own, rank) → (R.rolls own).isSome

/-- What holds of all places that count for the name. -/
structure Places (R : Register Name Tag Rank) (name : Name) (Q : Place Tag Rank → Prop) : Prop where
  person : ∀ person, R.people name = some person → Q person.place
  record : R.isActive name = false → ∀ place, R.records name = some place → Q place

/-- Somebody on a roll is in that organisation, if in any. -/
theorem Agrees.within (h : R.Agrees) {roll : List (Entry Name Rank)}
    (hRoll : R.rolls tag = some roll) {entry : Entry Name Rank} (hEntry : entry ∈ roll) :
    R.Places entry.name (·.Within tag) where
  person person hPerson := by
    have hListed := listed_ne_nil hEntry
    rw [(h.fits _ _ _ hRoll).person person hPerson] at hListed
    exact Place.within_of_entries hListed
  record hActive place hPlace := by
    have hListed := listed_ne_nil hEntry
    rw [(h.fits _ _ _ hRoll).record hActive place hPlace] at hListed
    exact Place.within_of_entries hListed

omit [DecidableEq Tag] in
theorem Places.changeMember {other : Name} {Q : Place Tag Rank → Prop} (h : R.Places other Q)
    (name : Name) {f : Place Tag Rank → Place Tag Rank} (hKeep : ∀ place, Q place → Q (f place)) :
    (R.changeMember name f).Places other Q := by
  by_cases hOther : other = name
  · subst hOther
    constructor
    · intro person hPerson
      obtain ⟨old, hFound, rfl⟩ :=
        Option.map_eq_some_iff.mp ((changeMember_self R other f).symm.trans hPerson)
      exact hKeep old.place (h.person old hFound)
    · intro hActive place hPlace
      have hInactive : R.isActive other = false := (isActive_changeMember R other f).symm.trans hActive
      obtain ⟨old, hFound, rfl⟩ :=
        Option.map_eq_some_iff.mp ((changeMember_record_self R other f hInactive).symm.trans hPlace)
      exact hKeep old (h.record hInactive old hFound)
  · have hPeople := changeMember_other R name f hOther
    constructor
    · intro person hPerson
      exact h.person person (hPeople.symm.trans hPerson)
    · intro hActive place hPlace
      rw [isActive, hPeople] at hActive
      exact h.record hActive place ((changeMember_record_other R name f hOther).symm.trans hPlace)

/-- Two registers that say the same about everybody but one. -/
structure Differs (R S : Register Name Tag Rank) (name : Name) : Prop where
  people : ∀ other, other ≠ name → S.people other = R.people other
  records : ∀ other, other ≠ name → S.records other = R.records other
  rolls : ∀ own roll', S.rolls own = some roll' → ∃ roll, R.rolls own = some roll ∧
    ∀ other, other ≠ name → listed other roll' = listed other roll
  opened : ∀ own, (R.rolls own).isSome → (S.rolls own).isSome

/-- What has to be shown is only what the register says about the one name. -/
theorem Agrees.of_differs (h : R.Agrees) {S : Register Name Tag Rank} (hDiffers : R.Differs S name)
    (hFits : ∀ own roll, S.rolls own = some roll → S.Fits name own roll)
    (hOpened : ∀ person own rank, S.people name = some person → person.place = some (own, rank) →
      (S.rolls own).isSome) : S.Agrees where
  fits other own roll' hRoll := by
    by_cases hOther : other = name
    · subst hOther
      exact hFits own roll' hRoll
    · obtain ⟨roll, hOld, hListed⟩ := hDiffers.rolls own roll' hRoll
      have hPeople := hDiffers.people other hOther
      have hOldFits := h.fits other own roll hOld
      constructor
      · intro person hPerson
        rw [hListed other hOther]
        exact hOldFits.person person (hPeople ▸ hPerson)
      · intro hActive place hPlace
        rw [hListed other hOther]
        refine hOldFits.record ?_ place (hDiffers.records other hOther ▸ hPlace)
        simpa [isActive, hPeople] using hActive
  opened other person own rank hPerson hPlace := by
    by_cases hOther : other = name
    · subst hOther
      exact hOpened person own rank hPerson hPlace
    · rw [hDiffers.people other hOther] at hPerson
      exact hDiffers.opened own (h.opened other person own rank hPerson hPlace)

section Members

variable {f : Place Tag Rank → Place Tag Rank}
  {g : List (Entry Name Rank) → List (Entry Name Rank)}

/-- The one name is changed at the person and in the record, and in the roll. -/
theorem differs_changeMember (tag : Tag) (f : Place Tag Rank → Place Tag Rank)
    (hListed : ∀ roll other, other ≠ name → listed other (g roll) = listed other roll) :
    R.Differs ((R.changeMember name f).changeRoll tag g) name where
  people other hOther := changeMember_other R name f hOther
  records other hOther := changeMember_record_other R name f hOther
  rolls own roll' hRoll := by
    unfold changeRoll at hRoll
    by_cases hOwn : own = tag
    · subst hOwn
      rw [setRoll_self, changeMember_rolls, Option.map_eq_some_iff] at hRoll
      obtain ⟨roll, hOld, rfl⟩ := hRoll
      exact ⟨roll, hOld, hListed roll⟩
    · rw [setRoll_other _ _ _ hOwn, changeMember_rolls] at hRoll
      exact ⟨roll', hRoll, fun _ _ => rfl⟩
  opened own hOld := by
    unfold changeRoll
    by_cases hOwn : own = tag
    · subst hOwn
      rw [setRoll_self, changeMember_rolls, Option.isSome_map]
      exact hOld
    · rw [setRoll_other _ _ _ hOwn, changeMember_rolls]
      exact hOld

/-- Somebody who is in no other organisation is changed, and so is the roll. -/
theorem Agrees.changeMember (h : R.Agrees) {Q : Place Tag Rank → Prop} (hPlaces : R.Places name Q)
    (hListed : ∀ roll other, other ≠ name → listed other (g roll) = listed other roll)
    (hOwn : ∀ roll place, Q place → listed name roll = place.entries name tag →
      listed name (g roll) = (f place).entries name tag)
    (hWithin : ∀ place, Q place → place.Within tag ∧ (f place).Within tag)
    (hOpened : ∀ person own rank, R.people name = some person → f person.place = some (own, rank) →
      (R.rolls own).isSome) :
    ((R.changeMember name f).changeRoll tag g).Agrees := by
  have hDiffers := differs_changeMember (R := R) tag f hListed
  have hEntries : ∀ place, Q place → ∀ own roll roll', R.rolls own = some roll →
      ((R.changeMember name f).changeRoll tag g).rolls own = some roll' →
      listed name roll = place.entries name own → listed name roll' = (f place).entries name own := by
    intro place hPlace own roll roll' hOld hRoll hOldListed
    unfold changeRoll at hRoll
    by_cases hTag : own = tag
    · subst hTag
      rw [setRoll_self, changeMember_rolls, hOld] at hRoll
      obtain rfl := Option.some.inj hRoll
      exact hOwn roll place hPlace hOldListed
    · rw [setRoll_other _ _ _ hTag, changeMember_rolls, hOld] at hRoll
      obtain rfl := Option.some.inj hRoll
      obtain ⟨hBefore, hAfter⟩ := hWithin place hPlace
      rw [hOldListed, hBefore.entries_other hTag, hAfter.entries_other hTag]
  refine h.of_differs hDiffers ?_ ?_
  · intro own roll' hRoll
    obtain ⟨roll, hOld, _⟩ := hDiffers.rolls own roll' hRoll
    have hFits := h.fits name own roll hOld
    constructor
    · intro person hPerson
      obtain ⟨old, hFound, rfl⟩ :=
        Option.map_eq_some_iff.mp ((changeMember_self R name f).symm.trans hPerson)
      exact hEntries old.place (hPlaces.person old hFound) own roll roll' hOld hRoll
        (hFits.person old hFound)
    · intro hActive place hPlace
      have hInactive : R.isActive name = false := (isActive_changeMember R name f).symm.trans hActive
      obtain ⟨old, hFound, rfl⟩ :=
        Option.map_eq_some_iff.mp ((changeMember_record_self R name f hInactive).symm.trans hPlace)
      exact hEntries old (hPlaces.record hInactive old hFound) own roll roll' hOld hRoll
        (hFits.record hInactive old hFound)
  · intro person own rank hPerson hPlace
    obtain ⟨old, hFound, rfl⟩ :=
      Option.map_eq_some_iff.mp ((changeMember_self R name f).symm.trans hPerson)
    exact hDiffers.opened own (hOpened old own rank hFound hPlace)

end Members

/-- Somebody who is in no organisation joins one. -/
theorem Agrees.enrol (h : R.Agrees) (hFree : R.Places name (· = none)) (hRoll : (R.rolls tag).isSome)
    (rank : Rank) : (R.enrol tag name rank).Agrees := by
  refine h.changeMember hFree (fun roll other hOther => listed_append_other hOther rank) ?_ ?_ ?_
  · rintro roll _ rfl hListed
    rw [listed_append_self, hListed, Place.entries_own]
    rfl
  · rintro _ rfl
    refine ⟨Place.within_none tag, ?_⟩
    rintro own rank' hPlace
    cases hPlace
    rfl
  · rintro person own rank' _ hPlace
    cases hPlace
    exact hRoll

/-- Somebody who is in this organisation, if in any, leaves it. -/
theorem Agrees.strike (h : R.Agrees) (hWithin : R.Places name (·.Within tag)) :
    (R.strike tag name).Agrees := by
  refine h.changeMember hWithin (fun roll other hOther => listed_erase_other hOther) ?_ ?_ ?_
  · intro roll place _ hListed
    rw [listed_erase_self, hListed, Place.entries_tail]
    rfl
  · intro place hPlace
    exact ⟨hPlace, Place.within_none tag⟩
  · intro person own rank _ hPlace
    cases hPlace

theorem Agrees.promote (h : R.Agrees) (hWithin : R.Places name (·.Within tag)) (rank : Rank) :
    (R.promote tag name rank).Agrees := by
  refine h.changeMember hWithin (fun roll other hOther => listed_modify_other hOther rank) ?_ ?_ ?_
  · intro roll place _ hListed
    rw [listed_modify_self, hListed, Place.entries_rank]
  · intro place hPlace
    refine ⟨hPlace, ?_⟩
    intro own rank' hNew
    obtain ⟨old, hOld, hSame⟩ := Option.map_eq_some_iff.mp hNew
    cases hSame
    exact hPlace old.1 old.2 hOld
  · intro person own rank' hPerson hNew
    obtain ⟨old, hOld, hSame⟩ := Option.map_eq_some_iff.mp hNew
    cases hSame
    exact h.opened name person old.1 old.2 hPerson hOld

section Presence

/-- The rolls stay as they are. -/
theorem Agrees.of_person (h : R.Agrees) {person : Option (Person Tag Rank)}
    (hFits : ∀ tag roll, R.rolls tag = some roll → (R.setPerson name person).Fits name tag roll)
    (hOpened : ∀ new own rank, person = some new → new.place = some (own, rank) →
      (R.rolls own).isSome) :
    (R.setPerson name person).Agrees := by
  have hSelf : (R.setPerson name person).people name = person := Function.update_self ..
  have hDiffers : R.Differs (R.setPerson name person) name := {
    people := fun other hOther => Function.update_of_ne hOther ..
    records := fun _ _ => rfl
    rolls := fun _ roll hRoll => ⟨roll, hRoll, fun _ _ => rfl⟩
    opened := fun _ hRoll => hRoll }
  refine h.of_differs hDiffers hFits ?_
  intro new own rank hNew
  exact hOpened new own rank (hSelf.symm.trans hNew)

/-- Somebody appears with the place from the record. -/
theorem Agrees.arrive (h : R.Agrees) (hAbsent : R.people name = none) {record place : Place Tag Rank}
    (hRecord : R.records name = some record)
    (hSame : ∀ tag, (R.rolls tag).isSome → place.entries name tag = record.entries name tag)
    (hOpened : ∀ own rank, place = some (own, rank) → (R.rolls own).isSome) :
    (R.setPerson name (some ⟨false, place⟩)).Agrees := by
  have hSelf : (R.setPerson name (some ⟨false, place⟩)).people name = some ⟨false, place⟩ :=
    Function.update_self ..
  refine h.of_person ?_ ?_
  · intro tag roll hRoll
    have hInactive : R.isActive name = false := by simp [isActive, hAbsent]
    have hListed := (h.fits name tag roll hRoll).record hInactive record hRecord
    constructor
    · intro person hPerson
      obtain rfl := Option.some.inj (hSelf.symm.trans hPerson)
      rw [hListed, hSame tag (by simp [hRoll])]
    · intro _ other hOther
      obtain rfl := Option.some.inj (hRecord.symm.trans hOther)
      exact hListed
  · intro new own rank hNew hPlace
    obtain rfl := Option.some.inj hNew
    exact hOpened own rank hPlace

theorem Agrees.activate (h : R.Agrees) {person : Person Tag Rank}
    (hPerson : R.people name = some person) :
    (R.setPerson name (some { person with active := true })).Agrees := by
  have hSelf : (R.setPerson name (some { person with active := true })).people name =
      some { person with active := true } := Function.update_self ..
  refine h.of_person ?_ ?_
  · intro tag roll hRoll
    constructor
    · intro new hNew
      obtain rfl := Option.some.inj (hSelf.symm.trans hNew)
      exact (h.fits name tag roll hRoll).person person hPerson
    · intro hInactive
      simp [isActive, hSelf] at hInactive
  · intro new own rank hNew hPlace
    obtain rfl := Option.some.inj hNew
    exact h.opened name person own rank hPerson hPlace

/-- Somebody goes whose record is up to date. -/
theorem Agrees.depart (h : R.Agrees)
    (hSaved : ∀ person place, R.people name = some person → person.active →
      R.records name = some place → place = person.place) :
    (R.setPerson name none).Agrees := by
  have hSelf : (R.setPerson name none).people name = none := Function.update_self ..
  refine h.of_person ?_ ?_
  · intro tag roll hRoll
    have hFits := h.fits name tag roll hRoll
    constructor
    · intro person hPerson
      rw [hSelf] at hPerson
      cases hPerson
    · intro _ place hPlace
      cases hActive : R.isActive name with
      | false => exact hFits.record hActive place hPlace
      | true =>
          obtain ⟨person, hPerson, hPresent⟩ := (Option.any_eq_true ..).mp hActive
          rw [hSaved person place hPerson hPresent hPlace]
          exact hFits.person person hPerson
  · intro _ _ _ hNone
    cases hNone

end Presence

section Changes

variable {S : Register Name Tag Rank}

/-- The records of persons that are not active mean the same for all open
rolls. -/
theorem Agrees.of_records (h : R.Agrees) (hPeople : S.people = R.people) (hRolls : S.rolls = R.rolls)
    (hRecords : ∀ name place', R.isActive name = false → S.records name = some place' →
      ∃ place, R.records name = some place ∧
        ∀ tag, (R.rolls tag).isSome → place'.entries name tag = place.entries name tag) :
    S.Agrees where
  fits name tag roll hRoll := by
    rw [hRolls] at hRoll
    have hFits := h.fits name tag roll hRoll
    constructor
    · intro person hPerson
      exact hFits.person person (hPeople ▸ hPerson)
    · intro hInactive place' hPlace
      rw [isActive, hPeople] at hInactive
      obtain ⟨place, hOld, hSame⟩ := hRecords name place' hInactive hPlace
      rw [hSame tag (by simp [hRoll])]
      exact hFits.record hInactive place hOld
  opened name person own rank hPerson hPlace := by
    rw [hRolls]
    exact h.opened name person own rank (hPeople ▸ hPerson) hPlace

theorem Agrees.entries_closed (h : R.Agrees) (hClosed : R.rolls tag = none)
    {person : Person Tag Rank} (hPerson : R.people name = some person) :
    person.place.entries name tag = [] := by
  cases hPlace : person.place with
  | none => rfl
  | some place =>
      refine if_neg fun hOwn => ?_
      have hOpen := h.opened name person place.1 place.2 hPerson hPlace
      rw [hOwn, hClosed] at hOpen
      cases hOpen

/-- A roll is made from the records. Nobody who is present is on it. -/
theorem Agrees.openRoll (h : R.Agrees) (hClosed : R.rolls tag = none) {roll : List (Entry Name Rank)}
    (hRead : ∀ name place, R.records name = some place → listed name roll = place.entries name tag)
    (hAway : ∀ name person, R.people name = some person → listed name roll = []) :
    (R.setRoll tag (some roll)).Agrees where
  fits name own roll' hRoll := by
    by_cases hOwn : own = tag
    · subst hOwn
      rw [setRoll_self] at hRoll
      obtain rfl := Option.some.inj hRoll
      constructor
      · intro person hPerson
        rw [hAway name person hPerson, h.entries_closed hClosed hPerson]
      · intro _ place hPlace
        exact hRead name place hPlace
    · rw [setRoll_other _ _ _ hOwn] at hRoll
      exact ⟨(h.fits name own roll' hRoll).person, (h.fits name own roll' hRoll).record⟩
  opened name person own rank hPerson hPlace := by
    by_cases hOwn : own = tag
    · subst hOwn
      rw [setRoll_self]
      rfl
    · rw [setRoll_other _ _ _ hOwn]
      exact h.opened name person own rank hPerson hPlace

/-- A roll is closed that is of nobody's organisation. -/
theorem Agrees.closeRoll (h : R.Agrees)
    (hUnheld : ∀ name person own rank, R.people name = some person →
      person.place = some (own, rank) → own ≠ tag) :
    (R.setRoll tag none).Agrees where
  fits name own roll hRoll := by
    by_cases hOwn : own = tag
    · subst hOwn
      rw [setRoll_self] at hRoll
      cases hRoll
    · rw [setRoll_other _ _ _ hOwn] at hRoll
      exact ⟨(h.fits name own roll hRoll).person, (h.fits name own roll hRoll).record⟩
  opened name person own rank hPerson hPlace := by
    rw [setRoll_other _ _ _ (hUnheld name person own rank hPerson hPlace)]
    exact h.opened name person own rank hPerson hPlace

end Changes

end Agreement

end Register

end General
