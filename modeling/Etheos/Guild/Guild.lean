import Etheos.General.Register
import Etheos.General.Tables
import Etheos.Login.Login
import Mathlib.Data.List.Sort

/-! Guilds. Membership is stored at the character, in the member list of the
guild, which is in memory while a character that is loaded has a pointer to it,
and in the table of characters, which is up to date only when a character is
saved. Characters are neither created nor deleted here. -/
namespace Etheos.Guilds

open General
open Login (lowercase)

/-- `std::toupper` on every byte. -/
def uppercase (subject : Bytes) : Bytes :=
  subject.map fun c => if 97 ≤ c ∧ c ≤ 122 then c - 32 else c

theorem lowercase_lowercase (subject : Bytes) : lowercase (lowercase subject) = lowercase subject := by
  unfold lowercase
  rw [List.map_map]
  refine List.map_congr_left fun c _ => ?_
  simp only [Function.comp]
  split
  · rw [if_neg]
    grind
  · rfl

theorem uppercase_uppercase (subject : Bytes) : uppercase (uppercase subject) = uppercase subject := by
  unfold uppercase
  rw [List.map_map]
  refine List.map_congr_left fun c _ => ?_
  simp only [Function.comp]
  split
  · rw [if_neg]
    grind
  · rfl

/-- The name of a character or a guild. -/
structure Name where
  text : Bytes
  isLower : lowercase text = text
  deriving DecidableEq

structure Tag where
  text : Bytes
  isUpper : uppercase text = text
  deriving DecidableEq

def Name.of (subject : Bytes) : Name := ⟨lowercase subject, lowercase_lowercase subject⟩

def Tag.of (subject : Bytes) : Tag := ⟨uppercase subject, uppercase_uppercase subject⟩

abbrev GuildMember := Entry Name Int

def GuildMember.new (name : Name) (rank : Int) : GuildMember := ⟨name, max 0 (min 9 rank)⟩

/-- A guild that is being created. Its leader is the character that holds it. -/
structure GuildCreate where
  tag : Tag
  name : Name
  members : List GuildMember
  deriving DecidableEq

/-- What other parts of the program decide about a character. The gold is what
`HasItem(1)` gives. -/
structure Surroundings where
  mapid : Int
  nowhere : Bool
  /-- Whether `npc_type` is `ENF::Guild`. -/
  guildNpc : Bool
  trading : Bool
  canInteractItems : Bool
  gold : Int
  deriving Repr, DecidableEq

/-- A character that is loaded. One that is `online` is in the world. -/
structure Character where
  online : Bool
  guild : Option Tag
  guildRank : Int
  guildInvite : Option Tag
  guildJoin : Option Tag
  guildCreate : Option GuildCreate
  around : Surroundings
  deriving DecidableEq

structure Guild where
  name : Name
  bank : Int
  members : List GuildMember
  deriving DecidableEq

/-- The columns `guild` and `guild_rank` of the table `characters`. -/
structure CharacterRow where
  guild : Option Tag
  guildRank : Int
  deriving DecidableEq

/-- What a query for the members of a guild gives for the row. -/
def CharacterRow.select (tag : Tag) (name : Name) (row : CharacterRow) : Option GuildMember :=
  if row.guild = some tag then some ⟨name, row.guildRank⟩ else none

/-- The columns `name` and `bank` of the table `guilds`. -/
structure GuildRow where
  name : Name
  bank : Int
  deriving DecidableEq

/-- The guilds in `cache` are those in memory. For a guild that is being created
`createCache` has the leader. The last two fields are tables of the database. -/
structure World where
  characters : Table Name Character
  cache : Table Tag Guild
  createCache : Table Tag Name
  characterRows : Table Name CharacterRow
  guildRows : Table Tag GuildRow
  deriving DecidableEq

/-- The settings for guilds. -/
structure Config where
  guildPrice : Int
  recruitCost : Int
  guildMaxMembers : Int
  guildCreateMembers : Int
  guildBankMax : Int
  guildMinDeposit : Int
  guildKickRank : Int
  guildPromoteRank : Int
  guildPromoteSameRank : Int
  guildDemoteRank : Int
  guildRecruitRank : Int
  guildDisbandRank : Int
  guildMultipleFounders : Bool
  guildMaxNameLength : Nat
  guildMaxDescLength : Nat

def Guild.getMember (guild : Guild) (name : Name) : Option GuildMember :=
  guild.members.find? (·.name = name)

/-- `AddBank`. -/
def Guild.addBank (cfg : Config) (guild : Guild) (gold : Int) : Guild :=
  if gold > 0 ∧ guild.bank + gold ≥ 0 then
    { guild with bank := min (guild.bank + gold) cfg.guildBankMax }
  else guild

/-- `DelBank`. -/
def Guild.delBank (guild : Guild) (gold : Int) : Guild :=
  if gold > 0 ∧ guild.bank ≥ 0 ∧ guild.bank - gold ≥ 0 then
    { guild with bank := guild.bank - gold }
  else guild

/-- Where `GetRank` reads in the array of nine rank names. Outside of it there
is nothing that it may read. -/
def rankIndex (rankno : Int) : Option (Fin 9) :=
  if h : (max 0 (rankno - 1)).toNat < 9 then some ⟨_, h⟩ else none

/-- `DelItem(1, amount)`. -/
def Character.delGold (self : Character) (amount : Int) : Character :=
  if amount ≤ 0 then self
  else
    let left := if self.around.gold < 0 ∨ self.around.gold - amount ≤ 0 then 0
      else self.around.gold - amount
    { self with around := { self.around with gold := left } }

def validTag (tag : Tag) : Bool :=
  2 ≤ tag.text.length && tag.text.length ≤ 3 && tag.text.all fun c => 65 ≤ c && c ≤ 90

def validGuildName (cfg : Config) (name : Name) : Bool :=
  4 ≤ name.text.length && name.text.length ≤ cfg.guildMaxNameLength &&
    name.text.all fun c => (97 ≤ c && c ≤ 122) || c = 32

def validDescription (cfg : Config) (description : Bytes) : Bool :=
  let description := lowercase description
  description.length ≤ cfg.guildMaxDescLength &&
    description.all fun c => (97 ≤ c && c ≤ 122) || (48 ≤ c && c ≤ 57) ||
      c = 32 || c = 64 || c = 95 || c = 45 || c = 46

namespace World

variable (w : World)

/-- A server that has just been started. -/
def start (characterRows : Table Name CharacterRow) (guildRows : Table Tag GuildRow) : World :=
  ⟨∅, ∅, ∅, characterRows, guildRows⟩

/-- The characters in the world. -/
def getCharacterReal (name : Name) : Option Character :=
  (w.characters.lookup name).filter (·.online)

def modifyCharacter (name : Name) (f : Character → Character) : World :=
  { w with characters := w.characters.modify name f }

def modifyGuild (tag : Tag) (f : Guild → Guild) : World :=
  { w with cache := w.cache.modify tag f }

def modifyRow (name : Name) (f : CharacterRow → CharacterRow) : World :=
  { w with characterRows := w.characterRows.modify name f }

/-- `ORDER BY guild_rank ASC, name ASC`. -/
def precedes (first second : GuildMember) : Prop :=
  first.rank < second.rank ∨ first.rank = second.rank ∧ first.name.text ≤ second.name.text

instance : DecidableRel precedes := fun _ _ => inferInstanceAs (Decidable (_ ∨ _))

/-- The members of a guild that is read from the database. -/
def readMembers (tag : Tag) : List GuildMember :=
  let rows := (w.characterRows.select (CharacterRow.select tag)).insertionSort (precedes · ·)
  rows.map fun row => GuildMember.new row.name row.rank

/-- `GuildManager::GetGuild`. The guild is in memory afterwards, if it exists. -/
def getGuild (tag : Tag) : World :=
  match w.cache.lookup tag, w.guildRows.lookup tag with
  | none, some row =>
      let guild : Guild := ⟨row.name, row.bank, w.readMembers tag⟩
      { w with cache := w.cache.insert tag guild }
  | _, _ => w

/-- The guild that `GetGuildName` finds. -/
def findGuildName (name : Name) : Option Tag :=
  match w.cache.entries.find? (·.2.name = name) with
  | some entry => some entry.1
  | none => (w.guildRows.entries.find? (·.2.name = name)).map (·.1)

def saveGuild (tag : Tag) (guild : Guild) : World :=
  { w with guildRows := w.guildRows.modify tag ({ · with bank := guild.bank }) }

/-- The destructor of a guild. One without members is deleted for good. -/
def destroy (tag : Tag) (guild : Guild) : World :=
  let w := { w with cache := w.cache.erase tag }
  if guild.members = [] then
    let forget := fun (_ : Name) (row : CharacterRow) =>
      if row.guild = some tag then ⟨none, 0⟩ else row
    { w with
      characterRows := w.characterRows.mapValues forget
      guildRows := w.guildRows.erase tag }
  else w.saveGuild tag guild

/-- Whether a character has a pointer to the guild. -/
def held (tag : Tag) : Bool := w.characters.entries.any (·.2.guild = some tag)

/-- A pointer to the guild is given up. The last one takes the guild with it. -/
def release (tag : Tag) : World :=
  match w.cache.lookup tag with
  | some guild => if w.held tag then w else w.destroy tag guild
  | none => w

/-- A guild that is only looked for is given up again. -/
def peek (tag : Tag) : World := (w.getGuild tag).release tag

/-- `Guild::AddMember`. The pointer to another guild is overwritten. -/
def addMember (tag : Tag) (joined : Name) (rank : Int) : World :=
  let old := (w.characters.lookup joined).bind (·.guild)
  let w := w.modifyCharacter joined ({ · with guild := some tag, guildRank := rank })
  let w := match old with
    | some old => w.release old
    | none => w
  let append := fun guild : Guild =>
    { guild with members := guild.members ++ [GuildMember.new joined rank] }
  w.modifyGuild tag append

/-- A character is changed. The row of one in the world is not updated. -/
def changeMember (name : Name) (f : Character → Character) (row : CharacterRow → CharacterRow) :
    World :=
  let online := (w.getCharacterReal name).isSome
  let w := w.modifyCharacter name f
  if online then w else w.modifyRow name row

/-- `Guild::DelMember`. -/
def delMember (tag : Tag) (kicked : Name) : World :=
  let erase := fun guild : Guild =>
    { guild with members := Entries.eraseFirst (·.name = kicked) guild.members }
  let w := w.changeMember kicked ({ · with guild := none, guildRank := 0 }) fun _ => ⟨none, 0⟩
  w.modifyGuild tag erase

def changeMemberRank (tag : Tag) (name : Name) (rank : Int) : World :=
  let change := fun guild : Guild => { guild with
    members := Entries.modifyFirst (·.name = name) ({ · with rank := rank }) guild.members }
  let w := w.changeMember name ({ · with guildRank := rank }) ({ · with guildRank := rank })
  w.modifyGuild tag change

/-- `Guild::SetMemberRank`. It fails where `GetRank` reads past the rank names. -/
def setMemberRank (tag : Tag) (name : Name) (rank : Int) : Option World :=
  match (w.cache.lookup tag).bind (·.getMember name), rankIndex rank with
  | none, _ => some w
  | some _, none => none
  | some _, some _ => some (w.changeMemberRank tag name rank)

/-- `Guild::Disband`. -/
def disband (tag : Tag) (members : List GuildMember) : World :=
  members.foldl (fun w member => w.delMember tag member.name) w

/-- `GuildManager::GetCreate`. -/
def getCreate (tag : Tag) : Option (Name × GuildCreate) := do
  let leader ← w.createCache.lookup tag
  let self ← w.characters.lookup leader
  let create ← self.guildCreate
  return (leader, create)

/-- The pointer `guild_create` is overwritten. What it pointed to is deleted, and
so is the entry under its tag, whatever that is by now. -/
def setCreate (leader : Name) (create : Option GuildCreate) : World :=
  let old := (w.characters.lookup leader).bind (·.guildCreate)
  let w := w.modifyCharacter leader ({ · with guildCreate := create })
  match old with
  | some old => { w with createCache := w.createCache.erase old.tag }
  | none => w

/-- `GuildManager::BeginCreate`. -/
def beginCreate (tag : Tag) (name : Name) (leader : Name) : World :=
  let w := { w with createCache := w.createCache.insert tag leader }
  w.setCreate leader (some ⟨tag, name, [GuildMember.new leader 0]⟩)

/-- `GuildManager::CreateGuild`. All on the list join that are in the world, also
those that are in a guild by now. -/
def createGuild (leader : Name) (create : GuildCreate) : World :=
  let w := { w with
    guildRows := w.guildRows.insert create.tag ⟨create.name, 0⟩
    createCache := w.createCache.erase create.tag }
  let join := fun (w : World) (member : GuildMember) =>
    if (w.getCharacterReal member.name).isSome then
      w.addMember create.tag member.name (if member.name = leader then 0 else 9)
    else w
  create.members.foldl join (w.getGuild create.tag)

end World

end Etheos.Guilds
