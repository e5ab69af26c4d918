import Etheos.Guild.Guild
import Etheos.General.Run

/-! The handlers for guilds, and the events that the guilds depend on. -/
namespace Etheos.Guilds

open General

namespace World

variable (cfg : Config) (w : World) (c : Name) (self : Character)

section Creation

/-- The guild that stands in the way of a new one. -/
def findGuild (tag : Tag) (name : Name) : Option Tag :=
  if (w.cache.lookup tag).isSome ∨ (w.guildRows.lookup tag).isSome then some tag
  else w.findGuildName name

/-- Everybody on the map who is in no guild is invited. -/
def invite (tag : Tag) : World :=
  let send := fun (name : Name) (other : Character) =>
    if name ≠ c ∧ other.online ∧ other.around.mapid = self.around.mapid ∧ ¬other.around.nowhere ∧
      other.guild = none then { other with guildInvite := some tag }
    else other
  { w with characters := w.characters.mapValues send }

def guildRequest (tag name : Bytes) : World :=
  if tag.length > 3 ∨ name.length > cfg.guildMaxNameLength then w
  else if ¬self.around.guildNpc ∨ self.guild.isSome ∨ cfg.guildCreateMembers ≤ 0 then w
  else
    match w.findGuild (.of tag) (.of name) with
    | some found => w.peek found
    | none =>
        if validTag (.of tag) ∧ validGuildName cfg (.of name) ∧
            self.around.gold ≥ cfg.guildPrice then
          (w.beginCreate (.of tag) (.of name) c).invite c self (.of tag)
        else w

def guildAccept : World :=
  match self.guildInvite with
  | none => w
  | some tag =>
      let w := match w.getCreate tag with
        | none => w
        | some (leader, create) =>
            let create := { create with members := create.members ++ [GuildMember.new c 9] }
            w.modifyCharacter leader ({ · with guildCreate := some create })
      w.modifyCharacter c ({ · with guildInvite := none })

/-- `INSERT` takes no tag and no name that is in the table. -/
def insertable (create : GuildCreate) : Bool :=
  (w.guildRows.lookup create.tag).isNone &&
    w.guildRows.entries.all fun entry => entry.2.name ≠ create.name

/-- What `Guild_Create` makes a guild of. Where `INSERT` throws, it is nothing. -/
def created (tag name description : Bytes) : Option GuildCreate :=
  if tag.length > 3 ∨ name.length > cfg.guildMaxNameLength ∨ ¬validDescription cfg description then
    none
  else if ¬self.around.guildNpc ∨ self.guild.isSome ∨ self.around.gold < cfg.guildPrice then none
  else
    match w.getCreate (.of tag) with
    | none => none
    | some (leader, create) =>
        if leader = c ∧ 0 ≤ cfg.guildCreateMembers ∧
          cfg.guildCreateMembers ≤ create.members.length ∧ w.insertable create then some create
        else none

def guildCreate (tag name description : Bytes) : World :=
  match w.created cfg c self tag name description with
  | none => w
  | some create =>
      let w := w.createGuild c create
      let w := w.modifyCharacter c (·.delGold cfg.guildPrice)
      let w := w.setCreate c none
      w.release create.tag

end Creation

section Members

def guildPlayer (tag recruiterName : Bytes) : World :=
  if tag.length > 3 ∨ recruiterName.length > 12 then w
  else if ¬self.around.guildNpc ∨ self.guild.isSome then w
  else
    match w.getCharacterReal (.of recruiterName) with
    | none => w
    | some recruiter =>
        if ¬recruiter.around.nowhere ∧ recruiter.around.mapid = self.around.mapid ∧
            recruiter.guild = some (.of tag) ∧ recruiter.guildRank ≤ cfg.guildRecruitRank then
          w.modifyCharacter c ({ · with guildJoin := some (.of tag) })
        else w

/-- The joiner is the character with the player id that is sent. -/
def guildUse (joiner : Name) : World :=
  match self.guild, w.getCharacterReal joiner with
  | some tag, some other =>
      match w.cache.lookup tag with
      | none => w
      | some guild =>
          if self.guildRank ≤ cfg.guildRecruitRank ∧ other.guild = none ∧
              self.around.mapid = other.around.mapid ∧ other.guildJoin = some tag ∧
              guild.bank ≥ cfg.recruitCost ∧
              (cfg.guildMaxMembers < 0 ∨ guild.members.length < cfg.guildMaxMembers) then
            (w.addMember tag joiner 9).modifyGuild tag (·.delBank cfg.recruitCost)
          else w
  | _, _ => w

def guildRemove : World :=
  match self.guild with
  | none => w
  | some tag => if self.around.guildNpc then (w.delMember tag c).release tag else w

def guildKick (name : Bytes) : World :=
  match self.guild with
  | none => w
  | some tag =>
      match (w.cache.lookup tag).bind (·.getMember (.of name)) with
      | none => w
      | some target =>
          if name.length ≤ 12 ∧ self.around.guildNpc ∧ self.guildRank ≤ cfg.guildKickRank ∧
              target.rank > self.guildRank then
            (w.delMember tag (.of name)).release tag
          else w

def guildJunk : World :=
  match self.guild with
  | none => w
  | some tag =>
      match w.cache.lookup tag with
      | none => w
      | some guild =>
          if self.around.guildNpc ∧ self.guildRank ≤ cfg.guildDisbandRank then
            (w.disband tag guild.members).release tag
          else w

/-- The checks of `Guild_Rank` once the member is found. -/
def maySetRank (target : GuildMember) (rank : Int) : Bool :=
  if target.rank = 0 then false
  else if rank = 0 then self.guildRank = 0 && cfg.guildMultipleFounders
  else
    let hasPerm : Bool :=
      if rank ≤ target.rank then self.guildRank ≤ cfg.guildPromoteRank
      else self.guildRank ≤ cfg.guildDemoteRank
    hasPerm && (self.guildRank = 0 || self.guildRank < target.rank) &&
      (rank > self.guildRank || (self.guildRank ≤ cfg.guildPromoteSameRank && self.guildRank ≤ rank))

def guildRank (rank : Int) (name : Bytes) : Option World :=
  match self.guild with
  | none => some w
  | some tag =>
      match (w.cache.lookup tag).bind (·.getMember (.of name)) with
      | none => some w
      | some target =>
          if ¬(rank < 0 ∨ rank > 10 ∨ name.length > 12) ∧ self.around.guildNpc ∧
              maySetRank cfg self target rank then
            w.setMemberRank tag target.name rank
          else some w

def guildBuy (gold : Int) : World :=
  match self.guild with
  | none => w
  | some tag =>
      match w.cache.lookup tag with
      | none => w
      | some guild =>
          let maxDeposit := cfg.guildBankMax - guild.bank
          let deposit := min gold maxDeposit
          if ¬self.around.trading ∧ self.around.canInteractItems ∧ gold ≥ 0 ∧
              self.around.guildNpc ∧ maxDeposit > 0 ∧ deposit ≥ cfg.guildMinDeposit ∧
              self.around.gold ≥ deposit then
            (w.modifyCharacter c (·.delGold deposit)).modifyGuild tag (·.addBank cfg deposit)
          else w

end Members

section Presence

/-- The constructor of a character. The guild is read where it is not in memory. -/
def load (row : CharacterRow) (around : Surroundings) : World :=
  match row.guild with
  | none => { w with characters := w.characters.insert c ⟨false, none, 0, none, none, none, around⟩ }
  | some tag =>
      let w := w.getGuild tag
      let guild := if (w.cache.lookup tag).isSome then some tag else none
      { w with
        characters := w.characters.insert c ⟨false, guild, row.guildRank, none, none, none, around⟩ }

/-- `Character::Save`. -/
def save : World := w.modifyRow c fun _ => ⟨self.guild, self.guildRank⟩

/-- The destructor of a character. Only one in the world is saved. -/
def unload : World :=
  let w := if self.online then w.save c self else w
  let w := w.setCreate c none
  let w := { w with characters := w.characters.erase c }
  match self.guild with
  | none => w
  | some tag => w.release tag

/-- `world_timed_save`. -/
def timedSave : World :=
  let saveRow := fun (name : Name) (row : CharacterRow) =>
    match w.getCharacterReal name with
    | some self => ⟨self.guild, self.guildRank⟩
    | none => row
  let saveGuild := fun (tag : Tag) (row : GuildRow) =>
    match w.cache.lookup tag with
    | some guild => { row with bank := guild.bank }
    | none => row
  { w with
    characterRows := w.characterRows.mapValues saveRow
    guildRows := w.guildRows.mapValues saveGuild }

end Presence

end World

/-- `guildrank` is what a quest or a command makes of the rank. The last two are
what else happens to a character, with a `Warp` and without one. -/
inductive Event where
  | request (c : Name) (tag name : Bytes)
  | accept (c : Name)
  | create (c : Name) (tag name description : Bytes)
  | player (c : Name) (tag recruiterName : Bytes)
  | use (c joiner : Name)
  | remove (c : Name)
  | kick (c : Name) (name : Bytes)
  | junk (c : Name)
  | rank (c : Name) (rank : Int) (name : Bytes)
  | buy (c : Name) (gold : Int)
  | guildrank (c : Name) (value : Int)
  | load (c : Name) (around : Surroundings)
  | enter (c : Name)
  | leave (c : Name)
  | timedSave
  | warp (c : Name) (around : Surroundings)
  | surroundings (c : Name) (around : Surroundings)
  deriving DecidableEq

/-- Packets come from characters in the world. -/
def step (cfg : Config) (w : World) : Event → Option World
  | .request c tag name => (w.getCharacterReal c).map fun self => w.guildRequest cfg c self tag name
  | .accept c => (w.getCharacterReal c).map fun self => w.guildAccept c self
  | .create c tag name description =>
      (w.getCharacterReal c).map fun self => w.guildCreate cfg c self tag name description
  | .player c tag recruiterName =>
      (w.getCharacterReal c).map fun self => w.guildPlayer cfg c self tag recruiterName
  | .use c joiner => (w.getCharacterReal c).map fun self => w.guildUse cfg self joiner
  | .remove c => (w.getCharacterReal c).map fun self => w.guildRemove c self
  | .kick c name => (w.getCharacterReal c).map fun self => w.guildKick cfg self name
  | .junk c => (w.getCharacterReal c).map fun self => w.guildJunk cfg self
  | .rank c rank name => (w.getCharacterReal c).bind fun self => w.guildRank cfg self rank name
  | .buy c gold => (w.getCharacterReal c).map fun self => w.guildBuy cfg c self gold
  | .guildrank c value => (w.getCharacterReal c).map fun _ =>
      w.modifyCharacter c ({ · with guildRank := max 0 (min 9 value) })
  | .load c around =>
      match w.characters.lookup c, w.characterRows.lookup c with
      | none, some row => some (w.load c row around)
      | _, _ => none
  | .enter c => (w.characters.lookup c).map fun _ => w.modifyCharacter c ({ · with online := true })
  | .leave c => (w.characters.lookup c).map fun self => w.unload c self
  | .timedSave => some w.timedSave
  | .warp c around => (w.getCharacterReal c).map fun _ =>
      w.modifyCharacter c ({ · with around := around, guildJoin := none, guildInvite := none })
  | .surroundings c around =>
      (w.getCharacterReal c).map fun _ => w.modifyCharacter c ({ · with around := around })

end Etheos.Guilds
