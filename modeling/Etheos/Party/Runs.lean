import Etheos.Party.Consistency

/-! Membership along the runs of the party handlers. -/
namespace Etheos.Parties

open World

/-- The leader of a party that goes on removes a member of another party. Its
pointer is cleared, and the other party keeps listing it. -/
def Harmful (w : World) : Event → Prop
  | .remove c id => ∃ p q, (w.characters c).party = some p ∧ c = (w.memory p).leader ∧
      (w.memory p).members.length > 2 ∧ id ≠ c ∧ (w.characters id).online = true ∧
      (w.characters id).party = some q ∧ q ≠ p
  | _ => False

variable {w : World}

/-- A change of the other fields of a character keeps the membership. -/
theorem Sound.setCharacter (h : Sound w) {c : CharId} {character : Character}
    (hParty : character.party = (w.characters c).party)
    (hOnline : character.online = true ∨ character.party = none)
    (hTrust : character.partyTrustSend ≠ some c) : Sound (w.setCharacter c character) := by
  have hSame (x : CharId) : ((w.setCharacter c character).characters x).party =
      (w.characters x).party := by
    by_cases hx : x = c
    · subst hx
      simp [World.setCharacter, hParty]
    · simp [World.setCharacter, hx]
  refine ⟨⟨fun x p => ?_, h.consistent.once, h.consistent.two, h.consistent.leader,
    h.consistent.single⟩, fun x hx => ?_, fun x => ?_⟩
  · rw [hSame]
    exact h.consistent.party_iff x p
  · rw [hSame]
    by_cases hxc : x = c
    · subst hxc
      simp only [World.setCharacter, Function.update_self] at hx
      rcases hOnline with hOn | hNone
      · rw [hOn] at hx
        cases hx
      · exact hParty ▸ hNone
    · simp only [World.setCharacter, Function.update_of_ne hxc] at hx
      exact h.offline x hx
  · by_cases hxc : x = c
    · subst hxc
      simpa [World.setCharacter] using hTrust
    · simpa [World.setCharacter, hxc] using h.trust x

theorem Sound.leave (h : Sound w) {p : PartyId} (hp : p ∈ w.parties) {c : CharId}
    (hOther : (w.memory p).members.length > 2 → c ≠ (w.memory p).leader →
      ∀ q, (w.characters c).party = some q → q = p) : Sound (w.leave p c) := by
  obtain ⟨_, hContacts, hNone, _⟩ := leave_frame w p c
  refine ⟨h.consistent.leave hp hOther, fun x hx => hNone x (h.offline x ?_), fun x => ?_⟩
  · rw [← (hContacts x).1]
    exact hx
  · rw [(hContacts x).2]
    exact h.trust x

/-- A character that leaves its own party is in none. -/
theorem Sound.leaveOwn (h : Sound w) (c : CharId) :
    Sound (w.leaveOwn c) ∧ ((w.leaveOwn c).characters c).party = none ∧
      SameContacts w (w.leaveOwn c) ∧
      ∀ p, p ∈ (w.leaveOwn c).parties → p ∈ w.parties := by
  unfold World.leaveOwn
  cases hParty : (w.characters c).party with
  | none => exact ⟨h, hParty, .refl w, fun _ hp => hp⟩
  | some p =>
      obtain ⟨hp, hMember⟩ := (h.consistent.party_iff c p).mp hParty
      obtain ⟨hLives, hContacts, _, hCleared⟩ := leave_frame w p c
      refine ⟨h.leave hp (fun _ _ q hq => ?_), hCleared hMember, hContacts, hLives⟩
      exact Option.some.inj (hq.symm.trans hParty)

theorem Sound.join (h : Sound w) {p : PartyId} (hp : p ∈ w.parties) {c : CharId}
    (hNone : (w.characters c).party = none) (hOnline : (w.characters c).online = true) :
    Sound (w.join p c) := by
  have hContacts : SameContacts w (w.join p c) := w.setParty_contacts (some p) c
  have hParty (x : CharId) : ((w.join p c).characters x).party =
      if x = c then some p else (w.characters x).party := w.setParty_party (some p) c x
  refine ⟨h.consistent.join hp hNone, fun x hx => ?_, fun x => ?_⟩
  · rw [(hContacts x).1] at hx
    have hxc : x ≠ c := by
      rintro rfl
      rw [hOnline] at hx
      cases hx
    rw [hParty, if_neg hxc]
    exact h.offline x hx
  · rw [(hContacts x).2]
    exact h.trust x

theorem Sound.newParty (h : Sound w) {address : PartyId} (hFree : address ∉ w.parties)
    {leader other : CharId} (hNe : leader ≠ other)
    (hLeader : (w.characters leader).party = none) (hOther : (w.characters other).party = none)
    (hLeaderOn : (w.characters leader).online = true)
    (hOtherOn : (w.characters other).online = true) :
    Sound (w.newParty address leader other) := by
  have hContacts : SameContacts w (w.newParty address leader other) :=
    (setParty_contacts _ (some address) leader).trans (setParty_contacts _ (some address) other)
  refine ⟨h.consistent.newParty hFree hNe hLeader hOther, fun x hx => ?_, fun x => ?_⟩
  · rw [(hContacts x).1] at hx
    have hxl : x ≠ leader := by
      rintro rfl
      rw [hLeaderOn] at hx
      cases hx
    have hxo : x ≠ other := by
      rintro rfl
      rw [hOtherOn] at hx
      cases hx
    simp only [World.newParty, setParty_party, setMemory, if_neg hxo, if_neg hxl]
    exact h.offline x hx
  · rw [(hContacts x).2]
    exact h.trust x

/-- Of two different characters that are online, one can enter the party of the
other. -/
theorem Sound.enter (h : Sound w) {host guest : CharId} (hNe : host ≠ guest)
    (hHost : (w.characters host).online = true) (hGuest : (w.characters guest).online = true)
    {address : PartyId} (hFree : address ∉ w.parties) :
    Sound (w.enter host guest address) ∧ SameContacts w (w.enter host guest address) := by
  obtain ⟨hSound, hNone, hContacts, hLives⟩ := h.leaveOwn guest
  have hGuest' := (hContacts guest).1.trans hGuest
  have hHost' := (hContacts host).1.trans hHost
  unfold World.enter
  cases hParty : ((w.leaveOwn guest).characters host).party with
  | some p =>
      obtain ⟨hp, _⟩ := (hSound.consistent.party_iff host p).mp hParty
      simp only [hParty]
      exact ⟨hSound.join hp hNone hGuest',
        hContacts.trans (setParty_contacts _ (some p) guest)⟩
  | none =>
      simp only [hParty]
      exact ⟨hSound.newParty (fun hAddress => hFree (hLives address hAddress)) hNe hParty hNone
          hHost' hGuest',
        hContacts.trans ((setParty_contacts _ (some address) host).trans
          (setParty_contacts _ (some address) guest))⟩

theorem Sound.partyRequest (h : Sound w) {c : CharId} (hOnline : (w.characters c).online = true)
    (type : UInt8) (invitee : CharId) (near : Bool) :
    Sound (w.partyRequest c type invitee near) := by
  unfold World.partyRequest
  split
  · exact h
  · split
    · exact h
    · next hFound =>
        simp only [not_or, not_not] at hFound
        obtain ⟨⟨_, hInvitee⟩, hNe⟩ := hFound
        have hAsked : Sound (w.setCharacter c
            { w.characters c with partyTrustSend := some invitee, partySendType := type }) :=
          h.setCharacter rfl (Or.inl hOnline) (fun hEq => hNe (Option.some.inj hEq).symm)
        have hOther : (w.setCharacter c
            { w.characters c with partyTrustSend := some invitee, partySendType := type }).characters
              invitee = w.characters invitee := by
          simp [World.setCharacter, Ne.symm hNe]
        refine hAsked.setCharacter rfl (Or.inl ?_) ?_
        · rw [hOther]
          exact hInvitee
        · rw [hOther]
          exact h.trust invitee

theorem Sound.partyAccept (h : Sound w) {c : CharId} (hOnline : (w.characters c).online = true)
    (inviter : CharId) (near : Bool) {address : PartyId} (hFree : address ∉ w.parties) :
    Sound (w.partyAccept c inviter near address) := by
  unfold World.partyAccept
  split
  · exact h
  · next hFound =>
      simp only [not_or, not_not, ne_eq] at hFound
      obtain ⟨⟨_, hInviter⟩, hSend, _⟩ := hFound
      have hNe : c ≠ inviter := by
        rintro rfl
        exact h.trust c hSend
      let w' := if (w.characters inviter).partySendType = partyRequestJoin then
          w.enter c inviter address
        else if (w.characters inviter).partySendType = partyRequestInvite then
          w.enter inviter c address
        else w
      have hEntered : Sound w' ∧ SameContacts w w' := by
        simp only [w']
        split
        · exact h.enter hNe hOnline hInviter hFree
        · split
          · exact h.enter hNe.symm hInviter hOnline hFree
          · exact ⟨h, .refl w⟩
      obtain ⟨hSound, hContacts⟩ := hEntered
      let w'' := w'.setCharacter c { w'.characters c with partyTrustRecv := none }
      have hDone : Sound w'' :=
        hSound.setCharacter rfl (Or.inl ((hContacts c).1.trans hOnline)) (hSound.trust c)
      have hOther : w''.characters inviter = w'.characters inviter := by
        simp [w'', World.setCharacter, hNe.symm]
      have hOn : (w''.characters inviter).online = true := by
        rw [hOther]
        exact (hContacts inviter).1.trans hInviter
      have hLast : Sound
          (w''.setCharacter inviter { w''.characters inviter with partyTrustSend := none }) :=
        hDone.setCharacter rfl (Or.inl hOn) (by simp)
      exact hLast

theorem Sound.packetRemove (h : Sound w) {c id : CharId} (hGood : ¬Harmful w (.remove c id)) :
    Sound (w.packetRemove c id) := by
  unfold World.packetRemove
  cases hParty : (w.characters c).party with
  | none => exact h
  | some p =>
      obtain ⟨hp, hMember⟩ := (h.consistent.party_iff c p).mp hParty
      simp only
      split
      · next hNamed =>
          split
          · next hOnline =>
              refine h.leave hp (fun hMore hNotLeader q hq => ?_)
              by_contra hNe
              have hOther : id ≠ c := by
                rintro rfl
                exact hNe (Option.some.inj (hq.symm.trans hParty))
              exact hGood ⟨p, q, hParty, hNamed.resolve_left hOther, hMore, hOther, hOnline, hq, hNe⟩
          · exact h
      · exact h

theorem Sound.logout (h : Sound w) (c : CharId) : Sound (w.logout c) := by
  obtain ⟨hSound, hNone, _, _⟩ := h.leaveOwn c
  exact hSound.setCharacter rfl (Or.inr hNone) (hSound.trust c)

theorem Sound.login (h : Sound w) {c : CharId} (hOffline : (w.characters c).online = false) :
    Sound (w.login c) :=
  h.setCharacter (h.offline c hOffline).symm (Or.inl rfl) (by simp)

/-- Every step but a harmful one keeps the membership. -/
theorem step_sound (w : World) (event : Event) (next : World) (h : Sound w)
    (hGood : ¬Harmful w event) (hStep : step w event = some next) : Sound next := by
  cases event with
  | login c =>
      simp only [step] at hStep
      split at hStep
      · cases hStep
      · next hOffline =>
          obtain rfl := Option.some.inj hStep
          exact h.login (by simpa using hOffline)
  | request c type invitee near =>
      obtain ⟨hOnline, hNext⟩ := Option.ite_none_right_eq_some.mp hStep
      obtain rfl := Option.some.inj hNext
      exact h.partyRequest hOnline type invitee near
  | accept c inviter near address =>
      obtain ⟨⟨hOnline, hFree⟩, hNext⟩ := Option.ite_none_right_eq_some.mp hStep
      obtain rfl := Option.some.inj hNext
      exact h.partyAccept hOnline inviter near hFree
  | remove c id =>
      obtain ⟨_, hNext⟩ := Option.ite_none_right_eq_some.mp hStep
      obtain rfl := Option.some.inj hNext
      exact h.packetRemove hGood
  | take c =>
      obtain ⟨_, hNext⟩ := Option.ite_none_right_eq_some.mp hStep
      obtain rfl := Option.some.inj hNext
      exact h
  | logout c =>
      obtain ⟨_, hNext⟩ := Option.ite_none_right_eq_some.mp hStep
      obtain rfl := Option.some.inj hNext
      exact h.logout c

/-- After a harmful step the other party lists a member that no longer points to
it. -/
theorem harmful_breaks (w : World) (event : Event) (next : World) (h : Sound w)
    (hBad : Harmful w event) (hStep : step w event = some next) : ¬Consistent next := by
  cases event with
  | remove c id =>
      obtain ⟨p, q, hParty, hLeader, hMore, hNe, hOnline, hOther, hqp⟩ := hBad
      obtain ⟨_, hNext⟩ := Option.ite_none_right_eq_some.mp hStep
      obtain rfl := Option.some.inj hNext
      have hRemove : w.packetRemove c id = w.leave p id := by
        simp only [World.packetRemove, hParty]
        rw [if_pos (Or.inr hLeader), if_pos hOnline]
      obtain ⟨hParties, hMemory, _, hCleared⟩ :=
        leave_spec w (p := p) (c := id) ⟨hMore, fun hEq => hNe (hEq.trans hLeader.symm)⟩
      obtain ⟨hq, hMember⟩ := (h.consistent.party_iff id q).mp hOther
      intro hNextConsistent
      have hListed : q ∈ (w.packetRemove c id).parties ∧
          id ∈ ((w.packetRemove c id).memory q).members := by
        rw [hRemove, hParties, hMemory, Function.update_of_ne hqp]
        exact ⟨hq, hMember⟩
      have hPoints := (hNextConsistent.party_iff id q).mpr hListed
      rw [hRemove, hCleared, if_pos rfl] at hPoints
      cases hPoints
  | _ => exact hBad.elim

theorem sound_start : Sound .start := by
  refine ⟨⟨fun c p => ?_, ?_, ?_, ?_, ?_⟩, fun _ _ => rfl, fun c => ?_⟩
  · simp [World.start]
  · simp [World.start]
  · simp [World.start]
  · simp [World.start]
  · simp [World.start]
  · simp [World.start]

/-- In the runs of a server, all states are consistent exactly when no leader of
a party that goes on names a member of another party. -/
theorem consistent_iff_avoids (events : List Event) :
    General.Always step Consistent .start events ↔
      General.Avoids step Harmful .start events :=
  General.always_iff_avoids (fun _ h => h.consistent) step_sound harmful_breaks sound_start events

/-- The leader of a party of three names a member of a party of two. -/
def foreignRemoval : List Event :=
  [.login 1, .login 2, .login 3, .login 4, .login 5,
    .request 1 1 2 true, .accept 2 1 true 100,
    .request 1 1 3 true, .accept 3 1 true 101,
    .request 4 1 5 true, .accept 5 4 true 101,
    .remove 1 5]

theorem not_consistent_foreignRemoval :
    ¬General.Always step Consistent .start foreignRemoval := by
  intro h
  obtain ⟨w, hRun, hNone, hListed, hMember⟩ :
      ∃ w, General.run step .start foreignRemoval = some w ∧ (w.characters 5).party = none ∧
        101 ∈ w.parties ∧ 5 ∈ (w.memory 101).members :=
    ⟨_, rfl, rfl, by decide, by decide⟩
  have hConsistent := h foreignRemoval w (List.prefix_refl _) hRun
  have hPoints := (hConsistent.party_iff 5 101).mpr ⟨hListed, hMember⟩
  rw [hNone] at hPoints
  cases hPoints

end Etheos.Parties
