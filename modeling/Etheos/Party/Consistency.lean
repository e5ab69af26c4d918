import Etheos.Party.Party
import Mathlib.Data.List.Nodup

/-! The three copies of the party membership agree, as long as no leader names a
member of another party. -/
namespace Etheos.Parties

/-- A character points to the party that lists it, once. Every party in the list
of the world has two members, and its leader is one of them. -/
structure Consistent (w : World) : Prop where
  party_iff : ∀ c p, (w.characters c).party = some p ↔ p ∈ w.parties ∧ c ∈ (w.memory p).members
  once : ∀ p ∈ w.parties, (w.memory p).members.Nodup
  two : ∀ p ∈ w.parties, 2 ≤ (w.memory p).members.length
  leader : ∀ p ∈ w.parties, (w.memory p).leader ∈ (w.memory p).members
  single : ∀ p ∈ w.parties, ∀ q ∈ w.parties, ∀ c,
    c ∈ (w.memory p).members → c ∈ (w.memory q).members → p = q

/-- The party list of the world, and who is online or has been asked, stay
behind the membership. -/
structure Sound (w : World) : Prop where
  consistent : Consistent w
  offline : ∀ c, (w.characters c).online = false → (w.characters c).party = none
  trust : ∀ c, (w.characters c).partyTrustSend ≠ some c

/-- Whether a character is online and whom it asked are the same in both. -/
def SameContacts (w w' : World) : Prop :=
  ∀ c, (w'.characters c).online = (w.characters c).online ∧
    (w'.characters c).partyTrustSend = (w.characters c).partyTrustSend

theorem SameContacts.refl (w : World) : SameContacts w w := fun _ => ⟨rfl, rfl⟩

theorem SameContacts.trans {w w' w'' : World} (h : SameContacts w w')
    (h' : SameContacts w' w'') : SameContacts w w'' :=
  fun c => ⟨(h' c).1.trans (h c).1, (h' c).2.trans (h c).2⟩

namespace World

theorem setParty_party (w : World) (party : Option PartyId) (c x : CharId) :
    ((w.setParty party c).characters x).party =
      if x = c then party else (w.characters x).party := by
  unfold setParty setCharacter
  by_cases h : x = c
  · subst h
    simp
  · simp [h]

theorem setParty_contacts (w : World) (party : Option PartyId) (c : CharId) :
    SameContacts w (w.setParty party c) := by
  intro x
  unfold setParty setCharacter
  by_cases h : x = c
  · subst h
    simp
  · simp [h]

/-- Clearing the pointers of a list of characters leaves all else alone. -/
theorem foldl_setParty (l : List CharId) (w : World) :
    (l.foldl (setParty · none) w).parties = w.parties ∧
      (l.foldl (setParty · none) w).memory = w.memory ∧
      SameContacts w (l.foldl (setParty · none) w) ∧
      ∀ x, ((l.foldl (setParty · none) w).characters x).party =
        if x ∈ l then none else (w.characters x).party := by
  induction l generalizing w with
  | nil => exact ⟨rfl, rfl, .refl w, fun x => by simp⟩
  | cons c l ih =>
      obtain ⟨hParties, hMemory, hContacts, hParty⟩ := ih (w.setParty none c)
      refine ⟨hParties, hMemory, (w.setParty_contacts none c).trans hContacts, fun x => ?_⟩
      rw [List.foldl_cons, hParty, setParty_party]
      by_cases hx : x = c
      · simp [hx]
      · simp [hx]

theorem deleteParty_spec (w : World) (p : PartyId) :
    (w.deleteParty p).parties = w.parties.filter (· ≠ p) ∧
      (w.deleteParty p).memory = w.memory ∧ SameContacts w (w.deleteParty p) ∧
      ∀ x, ((w.deleteParty p).characters x).party =
        if x ∈ (w.memory p).members then none else (w.characters x).party :=
  foldl_setParty (w.memory p).members { w with parties := w.parties.filter (· ≠ p) }

/-- What holds of the changed party and of all others. -/
theorem forall_update {w : World} {p : PartyId} {party : Party} {P : PartyId → Party → Prop} (hNew : P p party)
    (hOld : ∀ q ∈ w.parties, q ≠ p → P q (w.memory q)) :
    ∀ q ∈ w.parties, P q (Function.update w.memory p party q) := by
  intro q hq
  by_cases hqp : q = p
  · subst hqp
    rwa [Function.update_self]
  · rw [Function.update_of_ne hqp]
    exact hOld q hq hqp

end World

open World

variable {w : World}

/-- A deleted party has cleared the pointers of all its members. -/
theorem Consistent.deleteParty (h : Consistent w) {p : PartyId} (hp : p ∈ w.parties) :
    Consistent (w.deleteParty p) := by
  obtain ⟨hParties, hMemory, _, hParty⟩ := w.deleteParty_spec p
  have hLives (q : PartyId) : q ∈ (w.deleteParty p).parties ↔ q ∈ w.parties ∧ q ≠ p := by
    simp [hParties]
  refine ⟨fun c q => ?_, fun q hq => ?_, fun q hq => ?_, fun q hq => ?_,
    fun q hq r hr c hc hc' => ?_⟩
  · rw [hParty, hLives, hMemory]
    by_cases hMember : c ∈ (w.memory p).members
    · simp only [hMember, ↓reduceIte, reduceCtorEq, false_iff]
      rintro ⟨⟨hq, hNe⟩, hc⟩
      exact hNe (h.single q hq p hp c hc hMember)
    · simp only [hMember, ↓reduceIte, h.party_iff]
      constructor
      · rintro ⟨hq, hc⟩
        exact ⟨⟨hq, fun hEq => hMember (hEq ▸ hc)⟩, hc⟩
      · rintro ⟨⟨hq, _⟩, hc⟩
        exact ⟨hq, hc⟩
  · rw [hMemory]
    exact h.once q ((hLives q).mp hq).1
  · rw [hMemory]
    exact h.two q ((hLives q).mp hq).1
  · rw [hMemory]
    exact h.leader q ((hLives q).mp hq).1
  · rw [hMemory] at hc hc'
    exact h.single q ((hLives q).mp hq).1 r ((hLives r).mp hr).1 c hc hc'

/-- The state after one member has left a party that goes on. -/
theorem leave_spec (w : World) {p : PartyId} {c : CharId}
    (h : (w.memory p).members.length > 2 ∧ c ≠ (w.memory p).leader) :
    (w.leave p c).parties = w.parties ∧
      (w.leave p c).memory = Function.update w.memory p
        ⟨(w.memory p).leader, (w.memory p).members.erase c⟩ ∧
      SameContacts w (w.leave p c) ∧
      ∀ x, ((w.leave p c).characters x).party =
        if x = c then none else (w.characters x).party := by
  have hLeave : w.leave p c = (w.setMemory p
      ⟨(w.memory p).leader, (w.memory p).members.erase c⟩).setParty none c := if_pos h
  rw [hLeave]
  refine ⟨rfl, rfl, setParty_contacts _ none c, fun x => ?_⟩
  rw [setParty_party]
  rfl

/-- A character that leaves a party is in none, or in the party it leaves. -/
theorem Consistent.leave (h : Consistent w) {p : PartyId} (hp : p ∈ w.parties) {c : CharId}
    (hOther : (w.memory p).members.length > 2 → c ≠ (w.memory p).leader →
      ∀ q, (w.characters c).party = some q → q = p) : Consistent (w.leave p c) := by
  by_cases hGoesOn : (w.memory p).members.length > 2 ∧ c ≠ (w.memory p).leader
  · obtain ⟨hParties, hMemory, _, hParty⟩ := leave_spec w hGoesOn
    have hOnly := hOther hGoesOn.1 hGoesOn.2
    have hOnce := h.once p hp
    have hMembers (q : PartyId) (hq : q ∈ w.parties) (x : CharId) :
        x ∈ ((w.leave p c).memory q).members ↔ x ∈ (w.memory q).members ∧ x ≠ c := by
      rw [hMemory]
      by_cases hqp : q = p
      · subst hqp
        rw [Function.update_self, hOnce.mem_erase_iff]
        exact and_comm
      · rw [Function.update_of_ne hqp]
        refine ⟨fun hx => ⟨hx, fun hEq => ?_⟩, fun hx => hx.1⟩
        exact hqp (hOnly q ((h.party_iff c q).mpr ⟨hq, hEq ▸ hx⟩))
    refine ⟨fun x q => ?_, ?_, ?_, ?_, fun q hq r hr x hx hx' => ?_⟩
    · rw [hParty, hParties]
      by_cases hx : x = c
      · simp only [hx, ↓reduceIte, reduceCtorEq, false_iff, not_and]
        intro hq hMember
        exact ((hMembers q hq c).mp hMember).2 rfl
      · simp only [hx, ↓reduceIte, h.party_iff]
        refine and_congr_right fun hq => ?_
        rw [hMembers q hq]
        exact ⟨fun hMember => ⟨hMember, hx⟩, fun hMember => hMember.1⟩
    · rw [hParties, hMemory]
      exact forall_update (P := fun _ party => party.members.Nodup) (hOnce.erase c) fun q hq _ => h.once q hq
    · rw [hParties, hMemory]
      refine forall_update (P := fun _ party => 2 ≤ party.members.length) ?_ fun q hq _ => h.two q hq
      have hErase := (w.memory p).members.length_erase (a := c)
      have hThree := hGoesOn.1
      dsimp only
      split at hErase <;> omega
    · rw [hParties, hMemory]
      refine forall_update (P := fun _ party => party.leader ∈ party.members) ?_ fun q hq _ => h.leader q hq
      exact hOnce.mem_erase_iff.mpr ⟨Ne.symm hGoesOn.2, h.leader p hp⟩
    · rw [hParties] at hq hr
      exact h.single q hq r hr x ((hMembers q hq x).mp hx).1 ((hMembers r hr x).mp hx').1
  · have hLeave : w.leave p c = w.deleteParty p := if_neg hGoesOn
    rw [hLeave]
    exact h.deleteParty hp

/-- Leaving never adds a party, and clears the pointer of a member that leaves. -/
theorem leave_frame (w : World) (p : PartyId) (c : CharId) :
    (∀ q, q ∈ (w.leave p c).parties → q ∈ w.parties) ∧ SameContacts w (w.leave p c) ∧
      (∀ x, (w.characters x).party = none → ((w.leave p c).characters x).party = none) ∧
      (c ∈ (w.memory p).members → ((w.leave p c).characters c).party = none) := by
  by_cases hGoesOn : (w.memory p).members.length > 2 ∧ c ≠ (w.memory p).leader
  · obtain ⟨hParties, _, hContacts, hParty⟩ := leave_spec w hGoesOn
    refine ⟨fun q hq => hParties ▸ hq, hContacts, fun x hx => ?_, fun _ => ?_⟩
    · rw [hParty, hx, ite_self]
    · rw [hParty, if_pos rfl]
  · have hLeave : w.leave p c = w.deleteParty p := if_neg hGoesOn
    obtain ⟨hParties, _, hContacts, hParty⟩ := w.deleteParty_spec p
    rw [hLeave]
    refine ⟨fun q hq => ?_, hContacts, fun x hx => ?_, fun hMember => ?_⟩
    · rw [hParties] at hq
      exact List.mem_of_mem_filter hq
    · rw [hParty, hx, ite_self]
    · rw [hParty, if_pos hMember]

/-- A character that is in no party can be added to one. -/
theorem Consistent.join (h : Consistent w) {p : PartyId} (hp : p ∈ w.parties) {c : CharId}
    (hNone : (w.characters c).party = none) : Consistent (w.join p c) := by
  have hNot (q : PartyId) (hq : q ∈ w.parties) : c ∉ (w.memory q).members := by
    intro hMember
    have := (h.party_iff c q).mpr ⟨hq, hMember⟩
    simp [hNone] at this
  have hParty (x : CharId) : ((w.join p c).characters x).party =
      if x = c then some p else (w.characters x).party := w.setParty_party (some p) c x
  have hMemory : (w.join p c).memory = Function.update w.memory p
      ⟨(w.memory p).leader, (w.memory p).members ++ [c]⟩ := rfl
  have hMembers (q : PartyId) (x : CharId) : x ∈ ((w.join p c).memory q).members ↔
      x ∈ (w.memory q).members ∨ (q = p ∧ x = c) := by
    rw [hMemory]
    by_cases hqp : q = p
    · subst hqp
      simp
    · simp [hqp]
  refine ⟨fun x q => ?_, ?_, ?_, ?_, fun q hq r hr x hx hx' => ?_⟩
  · rw [hParty, hMembers]
    change _ ↔ q ∈ w.parties ∧ _
    by_cases hx : x = c
    · subst hx
      simp only [↓reduceIte, Option.some.injEq, and_true]
      constructor
      · rintro rfl
        exact ⟨hp, Or.inr rfl⟩
      · rintro ⟨hq, hMember | hEq⟩
        · exact absurd hMember (hNot q hq)
        · exact hEq.symm
    · simp [hx, h.party_iff]
  · rw [hMemory]
    refine forall_update (P := fun _ party => party.members.Nodup) ?_ fun q hq _ => h.once q hq
    simpa using (h.once p hp).concat (hNot p hp)
  · rw [hMemory]
    refine forall_update (P := fun _ party => 2 ≤ party.members.length) ?_ fun q hq _ => h.two q hq
    exact Nat.le_trans (h.two p hp) (List.prefix_append _ _).length_le
  · rw [hMemory]
    refine forall_update (P := fun _ party => party.leader ∈ party.members) ?_ fun q hq _ => h.leader q hq
    exact List.mem_append_left _ (h.leader p hp)
  · change q ∈ w.parties at hq
    change r ∈ w.parties at hr
    rcases (hMembers q x).mp hx with hIn | ⟨hqp, hxc⟩
    · rcases (hMembers r x).mp hx' with hIn' | ⟨hrp, hxc⟩
      · exact h.single q hq r hr x hIn hIn'
      · exact absurd (hxc ▸ hIn) (hNot q hq)
    · rcases (hMembers r x).mp hx' with hIn' | ⟨hrp, _⟩
      · exact absurd (hxc ▸ hIn') (hNot r hr)
      · rw [hqp, hrp]

/-- Two characters that are in no party can form one at a free address. -/
theorem Consistent.newParty (h : Consistent w) {address : PartyId} (hFree : address ∉ w.parties)
    {leader other : CharId} (hNe : leader ≠ other)
    (hLeader : (w.characters leader).party = none) (hOther : (w.characters other).party = none) :
    Consistent (w.newParty address leader other) := by
  have hNot (c : CharId) (hNone : (w.characters c).party = none) (q : PartyId)
      (hq : q ∈ w.parties) : c ∉ (w.memory q).members := by
    intro hMember
    have := (h.party_iff c q).mpr ⟨hq, hMember⟩
    simp [hNone] at this
  have hParty (x : CharId) : ((w.newParty address leader other).characters x).party =
      if x = leader ∨ x = other then some address else (w.characters x).party := by
    simp only [World.newParty, setParty_party, setMemory]
    by_cases hx : x = other
    · simp [hx]
    · simp [hx]
  have hMemory : (w.newParty address leader other).memory =
      Function.update w.memory address ⟨leader, [leader, other]⟩ := rfl
  have hLives (q : PartyId) : q ∈ (w.newParty address leader other).parties ↔
      q ∈ w.parties ∨ q = address := by
    change q ∈ w.parties ++ [address] ↔ _
    simp
  have hOld (q : PartyId) (hq : q ∈ w.parties) :
      (w.newParty address leader other).memory q = w.memory q := by
    rw [hMemory, Function.update_of_ne (fun hEq : q = address => hFree (hEq ▸ hq))]
  have hNew : (w.newParty address leader other).memory address = ⟨leader, [leader, other]⟩ := by
    rw [hMemory, Function.update_self]
  have hApart (q : PartyId) (hq : q ∈ w.parties) (x : CharId)
      (hx : x ∈ (w.memory q).members) : ¬(x = leader ∨ x = other) := by
    rintro (rfl | rfl)
    · exact hNot _ hLeader q hq hx
    · exact hNot _ hOther q hq hx
  refine ⟨fun x q => ?_, fun q hq => ?_, fun q hq => ?_, fun q hq => ?_,
    fun q hq r hr x hx hx' => ?_⟩
  · rw [hParty, hLives]
    by_cases hx : x = leader ∨ x = other
    · rw [if_pos hx]
      constructor
      · intro hEq
        obtain rfl := Option.some.inj hEq
        rw [hNew]
        exact ⟨Or.inr rfl, by simpa using hx⟩
      · rintro ⟨hq | rfl, hMember⟩
        · rw [hOld q hq] at hMember
          exact absurd hx (hApart q hq x hMember)
        · rfl
    · rw [if_neg hx, h.party_iff]
      constructor
      · rintro ⟨hq, hMember⟩
        exact ⟨Or.inl hq, by rwa [hOld q hq]⟩
      · rintro ⟨hq | rfl, hMember⟩
        · exact ⟨hq, by rwa [hOld q hq] at hMember⟩
        · rw [hNew] at hMember
          exact absurd (by simpa using hMember) hx
  · rcases (hLives q).mp hq with hq | rfl
    · rw [hOld q hq]
      exact h.once q hq
    · rw [hNew]
      simp [hNe]
  · rcases (hLives q).mp hq with hq | rfl
    · rw [hOld q hq]
      exact h.two q hq
    · rw [hNew]
      exact Nat.le_refl 2
  · rcases (hLives q).mp hq with hq | rfl
    · rw [hOld q hq]
      exact h.leader q hq
    · rw [hNew]
      simp
  · rcases (hLives q).mp hq with hLive | hFresh
    · rw [hOld q hLive] at hx
      rcases (hLives r).mp hr with hLive' | hFresh'
      · rw [hOld r hLive'] at hx'
        exact h.single q hLive r hLive' x hx hx'
      · rw [hFresh', hNew] at hx'
        exact absurd (by simpa using hx') (hApart q hLive x hx)
    · rw [hFresh, hNew] at hx
      rcases (hLives r).mp hr with hLive' | hFresh'
      · rw [hOld r hLive'] at hx'
        exact absurd (by simpa using hx) (hApart r hLive' x hx')
      · rw [hFresh, hFresh']

end Etheos.Parties
