import Etheos.EOClient.ActionQueue

/-! The handlers of packets. Each is for a client, for its player or for the character that is selected, and says
in which states of the client it may be called. -/
namespace Etheos.Dispatch

open ActionQueues (AllowStates FunctionType PacketHandler)

inductive PacketFamily
  | internal | connection | account | character | login | welcome | walk | face | chair | emote | attack | spell
  | shop | item | statSkill | global | talk | warp | jukebox | players | party | refresh | paperdoll | trade | chest
  | door | message | bank | locker | barber | guild | sit | board | priest | marriage | adminInteract | citizen
  | quest | book | init
  deriving Repr, DecidableEq

def PacketFamily.toByte : PacketFamily → UInt8
  | .internal => 0 | .connection => 1 | .account => 2 | .character => 3 | .login => 4 | .welcome => 5 | .walk => 6
  | .face => 7 | .chair => 8 | .emote => 9 | .attack => 11 | .spell => 12 | .shop => 13 | .item => 14
  | .statSkill => 16 | .global => 17 | .talk => 18 | .warp => 19 | .jukebox => 21 | .players => 22 | .party => 24
  | .refresh => 25 | .paperdoll => 30 | .trade => 32 | .chest => 33 | .door => 34 | .message => 35 | .bank => 36
  | .locker => 37 | .barber => 38 | .guild => 39 | .sit => 41 | .board => 43 | .priest => 46 | .marriage => 47
  | .adminInteract => 48 | .citizen => 49 | .quest => 50 | .book => 51 | .init => 255

inductive PacketAction
  | request | accept | reply | remove | agree | create | add | player | take | use | buy | sell | open | close | msg
  | spec | admin | list | tell | report | announce | drop | junk | get | kick | rank | targetSelf | targetOther
  | targetGroup | internalNull | internalWarp | ping | init
  deriving Repr, DecidableEq

def PacketAction.toByte : PacketAction → UInt8
  | .request => 1 | .accept => 2 | .reply => 3 | .remove => 4 | .agree => 5 | .create => 6 | .add => 7 | .player => 8
  | .take => 9 | .use => 10 | .buy => 11 | .sell => 12 | .open => 13 | .close => 14 | .msg => 15 | .spec => 16
  | .admin => 17 | .list => 18 | .tell => 20 | .report => 21 | .announce => 22 | .drop => 24 | .junk => 25 | .get => 27
  | .kick => 28 | .rank => 29 | .targetSelf => 30 | .targetOther => 31 | .targetGroup => 33 | .internalNull => 128
  | .internalWarp => 129 | .ping => 240 | .init => 255

namespace Allow

def uninitialized : AllowStates := ⟨true, false, false, false, false, false⟩
def menu : AllowStates := ⟨false, true, false, false, false, false⟩
def characterMenu : AllowStates := ⟨false, false, true, false, false, false⟩
def loggingIn : AllowStates := ⟨false, false, false, true, false, false⟩
def playing : AllowStates := ⟨false, false, false, false, true, false⟩
def playingOutOfBand : AllowStates := ⟨false, false, false, false, true, true⟩
def any : AllowStates := ⟨true, true, true, true, true, true⟩

end Allow

def client (allow : AllowStates) (delay : ℚ) : PacketHandler ℚ := ⟨.clientFn, allow, delay⟩

def player (allow : AllowStates) (delay : ℚ) : PacketHandler ℚ := ⟨.playerFn, allow, delay⟩

def character (allow : AllowStates) (delay : ℚ) : PacketHandler ℚ := ⟨.characterFn, allow, delay⟩

/-- A handler that is called while the character is in the game. -/
def playing (delay : ℚ) : PacketHandler ℚ := character Allow.playing delay

abbrev Registration := PacketFamily × PacketAction × PacketHandler ℚ

/-- `PACKET_HANDLER_REGISTER`. -/
def register (family : PacketFamily) (handlers : List (PacketAction × PacketHandler ℚ)) : List Registration :=
  handlers.map fun handler => (family, handler)

/-- All handlers, file by file. -/
def registrations : List Registration :=
  register .account [(.request, client Allow.menu 0.5), (.create, client Allow.menu 1),
      (.agree, player Allow.characterMenu 1)] ++
    register .adminInteract [(.tell, character Allow.playingOutOfBand 0),
      (.report, character Allow.playingOutOfBand 0)] ++
    register .attack [(.use, playing 0.5)] ++
    register .bank [(.open, playing 0), (.add, playing 0), (.take, playing 0)] ++
    register .barber [(.open, playing 0), (.buy, playing 0)] ++
    register .board [(.remove, playing 0), (.create, playing 0), (.take, playing 0), (.open, playing 0)] ++
    register .book [(.request, playing 0)] ++
    register .chair [(.request, playing 0)] ++
    register .character [(.request, player Allow.characterMenu 0), (.create, player Allow.characterMenu 1),
      (.remove, player Allow.characterMenu 1), (.take, player Allow.characterMenu 0)] ++
    register .chest [(.add, playing 0), (.take, playing 0), (.open, playing 0)] ++
    register .citizen [(.request, playing 0), (.accept, playing 0), (.reply, playing 0), (.remove, playing 0),
      (.open, playing 0)] ++
    register .connection [(.accept, client Allow.menu 0), (.ping, client Allow.any 0)] ++
    register .door [(.open, playing 0)] ++
    register .emote [(.report, playing 0)] ++
    register .face [(.player, playing 0.12)] ++
    register .global [(.remove, playing 0), (.player, playing 0), (.open, playing 0), (.close, playing 0)] ++
    register .guild [(.request, playing 1), (.accept, playing 0), (.remove, playing 0), (.agree, playing 0),
      (.create, playing 1), (.player, playing 0.5), (.take, playing 0), (.use, playing 0), (.buy, playing 0),
      (.open, playing 0), (.tell, playing 0.5), (.report, playing 0.5), (.junk, playing 0), (.kick, playing 0),
      (.rank, playing 0)] ++
    register .init [(.init, client Allow.uninitialized 0)] ++
    register .internal [(.internalNull, client Allow.any 0), (.internalWarp, playing 0)] ++
    register .item [(.use, playing 0), (.drop, playing 0), (.junk, playing 0), (.get, playing 0)] ++
    register .jukebox [(.open, playing 0), (.msg, playing 0), (.use, playing 0)] ++
    register .locker [(.add, playing 0), (.take, playing 0), (.open, playing 0), (.buy, playing 0)] ++
    register .login [(.request, client Allow.menu 1)] ++
    register .marriage [(.open, playing 0), (.request, playing 0)] ++
    register .message [(.ping, character Allow.playingOutOfBand 0)] ++
    register .paperdoll [(.request, playing 0), (.remove, playing 0), (.add, playing 0)] ++
    register .party [(.request, playing 0.5), (.accept, playing 0), (.remove, playing 0), (.take, playing 0)] ++
    register .players [(.accept, playing 0), (.list, client Allow.any 0), (.request, client Allow.any 0)] ++
    register .priest [(.accept, playing 0), (.open, playing 0), (.request, playing 0), (.use, playing 0)] ++
    register .quest [(.use, playing 0), (.accept, playing 0), (.list, playing 0)] ++
    register .refresh [(.request, playing 0)] ++
    register .shop [(.create, playing 0), (.buy, playing 0), (.sell, playing 0), (.open, playing 0)] ++
    register .sit [(.request, playing 0)] ++
    register .spell [(.request, playing 0), (.targetSelf, playing 0), (.targetOther, playing 0),
      (.targetGroup, playing 0)] ++
    register .statSkill [(.open, playing 0), (.take, playing 0), (.remove, playing 0), (.add, playing 0),
      (.junk, playing 0)] ++
    register .talk [(.request, playing 0), (.open, playing 0), (.msg, playing 0), (.tell, playing 0),
      (.report, playing 0), (.admin, playing 0), (.announce, playing 0)] ++
    register .trade [(.request, playing 0.5), (.accept, playing 0), (.remove, playing 0), (.agree, playing 0),
      (.add, playing 0), (.close, playing 0)] ++
    register .walk [(.admin, playing 0.4), (.player, playing 0.4), (.spec, playing 0.4)] ++
    register .warp [(.accept, playing 0), (.take, playing 0.15)] ++
    register .welcome [(.request, player Allow.characterMenu 0), (.msg, player Allow.loggingIn 0),
      (.agree, player Allow.loggingIn 0.15)]

/-- A handler that is registered again takes the place of the one before. -/
def handlers (family action : UInt8) : Option (PacketHandler ℚ) :=
  (registrations.reverse.find? fun r => r.1.toByte = family ∧ r.2.1.toByte = action).map (·.2.2)

end Etheos.Dispatch
