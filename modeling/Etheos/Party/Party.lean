import Etheos.General.Run
import Mathlib.Logic.Function.Basic

/-! Parties. Membership is stored at the character, in the member list of the
party and in the party list of the world. -/
namespace Etheos.Parties

/-- A character is named by its player id. -/
abbrev CharId := Nat

/-- The address of a party. -/
abbrev PartyId := Nat

def partyRequestJoin : UInt8 := 0

def partyRequestInvite : UInt8 := 1

/-- What a character knows about parties. -/
structure Character where
  online : Bool
  party : Option PartyId
  partyTrustSend : Option CharId
  partyTrustRecv : Option CharId
  partySendType : UInt8
  deriving Repr, DecidableEq

structure Party where
  leader : CharId
  members : List CharId
  deriving Repr, DecidableEq

/-- The memory keeps what it holds when a party is deleted. The living parties
are those in the list. -/
structure World where
  characters : CharId → Character
  memory : PartyId → Party
  parties : List PartyId

namespace World

def setCharacter (w : World) (c : CharId) (character : Character) : World :=
  { w with characters := Function.update w.characters c character }

/-- `character->party = party`. -/
def setParty (w : World) (party : Option PartyId) (c : CharId) : World :=
  w.setCharacter c { w.characters c with party := party }

def setMemory (w : World) (p : PartyId) (party : Party) : World :=
  { w with memory := Function.update w.memory p party }

/-- The constructor of a party, which is put at a free address. -/
def newParty (w : World) (address : PartyId) (leader other : CharId) : World :=
  let w := { w with parties := w.parties ++ [address] }
  let w := w.setMemory address ⟨leader, [leader, other]⟩
  (w.setParty (some address) leader).setParty (some address) other

def join (w : World) (p : PartyId) (character : CharId) : World :=
  let w := w.setParty (some p) character
  w.setMemory p { w.memory p with members := (w.memory p).members ++ [character] }

/-- The destructor of a party. -/
def deleteParty (w : World) (p : PartyId) : World :=
  let w := { w with parties := w.parties.filter (· ≠ p) }
  (w.memory p).members.foldl (setParty · none) w

/-- A leader that leaves takes the party down. The character that leaves is not
looked for outside of the member list. -/
def leave (w : World) (p : PartyId) (character : CharId) : World :=
  let party := w.memory p
  if party.members.length > 2 ∧ character ≠ party.leader then
    (w.setMemory p { party with members := party.members.erase character }).setParty none character
  else w.deleteParty p

/-- `near` tells whether the map finds the invitee within range. -/
def partyRequest (w : World) (character : CharId) (type : UInt8) (invitee : CharId)
    (near : Bool) : World :=
  if type ≠ partyRequestJoin ∧ type ≠ partyRequestInvite then w
  else if ¬(near ∧ (w.characters invitee).online) ∨ character = invitee then w
  else
    let w := w.setCharacter character
      { w.characters character with partyTrustSend := some invitee, partySendType := type }
    w.setCharacter invitee { w.characters invitee with partyTrustRecv := some character }

/-- `if (character->party) character->party->Leave(character)`. -/
def leaveOwn (w : World) (character : CharId) : World :=
  match (w.characters character).party with
  | some p => w.leave p character
  | none => w

/-- The guest leaves its own party for that of the host. -/
def enter (w : World) (host guest : CharId) (address : PartyId) : World :=
  let w := w.leaveOwn guest
  match (w.characters host).party with
  | some p => w.join p guest
  | none => w.newParty address host guest

/-- Both sides of `Party_Accept` do the same with the parts exchanged. -/
def partyAccept (w : World) (character inviter : CharId) (near : Bool) (address : PartyId) :
    World :=
  if ¬(near ∧ (w.characters inviter).online) ∨
      (w.characters inviter).partyTrustSend ≠ some character ∨
      (w.characters character).partyTrustRecv ≠ some inviter then w
  else
    let type := (w.characters inviter).partySendType
    let w :=
      if type = partyRequestJoin then w.enter character inviter address
      else if type = partyRequestInvite then w.enter inviter character address
      else w
    let w := w.setCharacter character { w.characters character with partyTrustRecv := none }
    w.setCharacter inviter { w.characters inviter with partyTrustSend := none }

/-- The leader may name any character that is online. -/
def packetRemove (w : World) (character id : CharId) : World :=
  match (w.characters character).party with
  | none => w
  | some p =>
      if id = character ∨ character = (w.memory p).leader then
        if (w.characters id).online then w.leave p id else w
      else w

def logout (w : World) (character : CharId) : World :=
  let w := w.leaveOwn character
  w.setCharacter character { w.characters character with online := false }

/-- A character that enters the game is a new object. -/
def login (w : World) (character : CharId) : World :=
  w.setCharacter character ⟨true, none, none, none, partyRequestJoin⟩

/-- A server that has just been started. -/
def start : World := ⟨fun _ => ⟨false, none, none, none, partyRequestJoin⟩, fun _ => ⟨0, []⟩, []⟩

end World

inductive Event where
  | login (character : CharId)
  | request (character : CharId) (type : UInt8) (invitee : CharId) (near : Bool)
  | accept (character inviter : CharId) (near : Bool) (address : PartyId)
  | remove (character id : CharId)
  | take (character : CharId)
  | logout (character : CharId)
  deriving Repr, DecidableEq

/-- Packets come from characters that are online. `Party_Take` only sends the
members. -/
def step (w : World) : Event → Option World
  | .login c => if (w.characters c).online then none else some (w.login c)
  | .request c type invitee near =>
      if (w.characters c).online then some (w.partyRequest c type invitee near) else none
  | .accept c inviter near address =>
      if (w.characters c).online ∧ address ∉ w.parties then
        some (w.partyAccept c inviter near address)
      else none
  | .remove c id => if (w.characters c).online then some (w.packetRemove c id) else none
  | .take c => if (w.characters c).online then some w else none
  | .logout c => if (w.characters c).online then some (w.logout c) else none

end Etheos.Parties
