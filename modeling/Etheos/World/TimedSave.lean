import Etheos.Character.Items
import Etheos.General.Hoare
import Etheos.General.Run
import Etheos.General.Transaction
import Etheos.Guild.Texts

/-! The timed save of the world, as far as it stores guilds and the commands that are audited.
A statement for a character is one that may fail. -/
namespace Etheos.TimedSaves

open General
open Characters (toInt)
open Guilds (Tag Name Ranks textWordWrap validDescription validRank)

/-- An entry of `command_audit_uncommitted`. -/
structure AuditEntry where
  time : Int
  source : Bytes
  command : Bytes
  arguments : List Bytes
  deriving DecidableEq

/-- A row of the table `command_audit`. -/
structure AuditRow where
  time : Int
  source : Bytes
  command : Bytes
  arguments : Bytes
  deriving DecidableEq

def AuditEntry.row (entry : AuditEntry) : AuditRow :=
  ⟨toInt entry.time, entry.source, entry.command, [32].intercalate entry.arguments⟩

/-- The columns of the table `guilds` that are saved. -/
structure GuildRow where
  description : Bytes
  ranks : Bytes
  bank : Int
  deriving DecidableEq

structure Tables where
  guilds : Table Tag GuildRow
  commandAudit : List AuditRow

structure Guild where
  description : Bytes
  ranks : Ranks
  bank : Int
  needsSave : Bool

def Guild.row (guild : Guild) : GuildRow := ⟨guild.description, guild.ranks.serialize, guild.bank⟩

/-- What fails of one timed save. A statement that is not mentioned does not. -/
structure Failures where
  /-- All ten attempts to begin a transaction. -/
  begin : Bool
  /-- The statements in between, in their order. -/
  statements : List Bool
  commit : Bool
  rollback : Bool
  deriving DecidableEq

def Failures.never : Failures := ⟨false, [], false, false⟩

/-- Guilds that are not in memory are only stored. What was ever to be stored of the commands
is remembered in `audited`, which the program does not have. -/
structure Server where
  db : General.Connection Tables
  failures : Failures
  characters : List Name
  guilds : Table Tag Guild
  commandAuditUncommitted : List AuditEntry
  audited : List AuditRow

/-- `terminated` is `std::terminate`, the other one a `Database_Exception`. -/
inductive Fault
  | terminated
  | database
  deriving Repr, DecidableEq

abbrev Prog := EStateM Fault Server

/-- The options for guilds that matter for their texts. -/
structure Config extends Guilds.Config where
  guildMaxWidth : Int
  guildMaxRankLength : Nat
  guildDefaultRanks : Bytes

section Save

/-- `Database::Query`, for a statement that changes the tables. -/
def query (f : Tables → Tables) : Prog Unit := do
  let s ← get
  modify fun s => { s with failures := { s.failures with statements := s.failures.statements.tail } }
  if s.failures.statements.head? = some true then throw .database
  else modify fun s => { s with db := s.db.exec f }

def beginTransaction : Prog Unit := do
  let s ← get
  if s.db.working.isSome then return ()
  else if s.failures.begin then throw .terminated
  else modify fun s => { s with db := s.db.begin }

def commit : Prog Unit := do
  let s ← get
  if s.db.working.isNone ∨ s.failures.commit then throw .database
  else modify fun s => { s with db := s.db.commit }

def rollback : Prog Unit := do
  let s ← get
  if s.db.working.isNone ∨ s.failures.rollback then throw .database
  else modify fun s => { s with db := s.db.rollback }

/-- `Character::Save` for characters one after the other. -/
def saveCharacters : List Name → Prog Unit
  | [] => return ()
  | _ :: rest => do
      query id
      saveCharacters rest

def Tables.updateGuild (tag : Tag) (row : GuildRow) (tables : Tables) : Tables :=
  { tables with guilds := tables.guilds.modify tag fun _ => row }

/-- `Guild::Save`. -/
def saveGuild (tag : Tag) : Prog Unit := do
  let s ← get
  match s.guilds.lookup tag with
  | none => return ()
  | some guild =>
      if guild.needsSave then
        query (·.updateGuild tag guild.row)
        modify fun s => { s with guilds := s.guilds.modify tag ({ · with needsSave := false }) }
      else return ()

/-- The loop of `GuildManager::SaveAll`. A guild is in the cache under its tag and under its
name. The second time there is nothing to save. -/
def saveGuilds : List Tag → Prog Unit
  | [] => return ()
  | tag :: rest => do
      saveGuild tag
      saveGuilds rest

def saveAll : Prog Unit := do
  let s ← get
  saveGuilds s.guilds.keys

def Tables.insertAudit (rows : List AuditRow) (tables : Tables) : Tables :=
  { tables with commandAudit := tables.commandAudit ++ rows }

/-- The loop of `SaveCommandAudit`, which goes on behind a statement that fails. -/
def insertAudit : List AuditEntry → Prog Unit
  | [] => return ()
  | entry :: rest => do
      tryCatch (query (·.insertAudit [entry.row])) fun _ => return ()
      insertAudit rest

def saveCommandAudit : Prog Unit := do
  let s ← get
  insertAudit s.commandAuditUncommitted
  modify fun s => { s with commandAuditUncommitted := [] }

/-- `world_timed_save`. -/
def timedSave : Prog Unit := do
  beginTransaction
  let s ← get
  saveCharacters s.characters
  saveAll
  saveCommandAudit
  tryCatch commit fun _ => rollback

end Save

namespace Server

variable (s : Server)

/-- The end of the process, and a new one. A transaction that is open is rolled back. -/
def restart : Server :=
  { s with db := s.db.rollback, failures := .never, characters := [], guilds := ∅, commandAuditUncommitted := [] }

/-- `Cleanup` of `main`, where the characters and the guilds save themselves in the end. -/
def cleanup : Server :=
  let save : Prog Unit := do
    saveCommandAudit
    saveCharacters s.characters
    saveAll
  (final save { s with failures := .never }).restart

/-- An exception that is thrown ends the process. -/
def ended : EStateM.Result Fault Server Unit → Server
  | .ok _ s => { s with failures := .never }
  | .error .database s => s.cleanup
  | .error .terminated s => s.restart

def timedSave (failures : Failures) : Server := ended (TimedSaves.timedSave { s with failures })

def modifyGuild (tag : Tag) (f : Guild → Guild) : Server := { s with guilds := s.guilds.modify tag f }

/-- `GuildManager::GetGuild`. -/
def getGuild (cfg : Config) (tag : Tag) : Server :=
  match s.guilds.lookup tag, s.db.stored.guilds.lookup tag with
  | none, some row =>
      match textWordWrap row.description cfg.guildMaxWidth with
      | none => s
      | some description =>
          { s with guilds := s.guilds.insert tag ⟨description, .unserialize row.ranks, row.bank, false⟩ }
  | _, _ => s

/-- `GuildManager::CreateGuild`. A tag that is in the table is not taken. -/
def createGuild (cfg : Config) (tag : Tag) (description : Bytes) : Server :=
  match textWordWrap description cfg.guildMaxWidth, s.db.stored.guilds.lookup tag with
  | some description, none =>
      let insert (tables : Tables) : Tables :=
        { tables with guilds := tables.guilds.insert tag ⟨description, cfg.guildDefaultRanks, 0⟩ }
      { s with db := s.db.exec insert }.getGuild cfg tag
  | _, _ => s

/-- The destructor of a guild. -/
def release (tag : Tag) (empty : Bool) : Server :=
  if (s.guilds.lookup tag).isNone then s
  else if empty then
    let delete (tables : Tables) : Tables := { tables with guilds := tables.guilds.erase tag }
    { s with db := s.db.exec delete, guilds := s.guilds.erase tag }
  else
    let s := final (saveGuild tag) s
    { s with guilds := s.guilds.erase tag }

end Server

namespace Guild

variable (cfg : Config) (guild : Guild)

/-- `SetDescription`. Where the description is not wrapped, it stays as it was. -/
def setDescription (description : Bytes) : Guild :=
  let description := description.map fun c => if c = 255 then 121 else c
  { guild with
    needsSave := true
    description := (textWordWrap description cfg.guildMaxWidth).getD guild.description }

def addBank (gold : Int) : Guild :=
  if gold > 0 ∧ toInt (guild.bank + gold) ≥ 0 then
    { guild with needsSave := true, bank := min (toInt (guild.bank + gold)) cfg.guildBankMax }
  else guild

def delBank (gold : Int) : Guild :=
  if gold > 0 ∧ guild.bank ≥ 0 ∧ guild.bank - gold ≥ 0 then
    { guild with needsSave := true, bank := guild.bank - gold }
  else guild

/-- The names are checked by `Guild_Agree`. -/
def setRanks (names : Fin 9 → Bytes) : Guild :=
  if h : ∀ i, validRank cfg.guildMaxRankLength (names i) = true then
    { guild with needsSave := true, ranks := ⟨names, fun i => Guilds.validRank_noComma (h i)⟩ }
  else guild

end Guild

/-- What guilds, commands and characters do between the saves, and the saves. -/
inductive Event
  | command (entry : AuditEntry)
  | setDescription (tag : Tag) (description : Bytes)
  | setRanks (tag : Tag) (names : Fin 9 → Bytes)
  | addBank (tag : Tag) (gold : Int)
  | delBank (tag : Tag) (gold : Int)
  | createGuild (tag : Tag) (description : Bytes)
  | getGuild (tag : Tag)
  | release (tag : Tag) (empty : Bool)
  | enter (c : Name)
  | leave (c : Name)
  | timedSave (failures : Failures)
  | stop

def step (cfg : Config) (s : Server) : Event → Option Server
  | .command entry => some
      { s with
        commandAuditUncommitted := s.commandAuditUncommitted ++ [entry]
        audited := s.audited ++ [entry.row] }
  | .setDescription tag description =>
      some (if validDescription cfg.toConfig description then s.modifyGuild tag (·.setDescription cfg description)
        else s)
  | .setRanks tag names => some (s.modifyGuild tag (·.setRanks cfg names))
  | .addBank tag gold => some (s.modifyGuild tag (·.addBank cfg gold))
  | .delBank tag gold => some (s.modifyGuild tag (·.delBank gold))
  | .createGuild tag description => some (s.createGuild cfg tag description)
  | .getGuild tag => some (s.getGuild cfg tag)
  | .release tag empty => some (s.release tag empty)
  | .enter c => some { s with characters := s.characters ++ [c] }
  | .leave c => some { s with characters := s.characters.erase c }
  | .timedSave failures => some (s.timedSave failures)
  | .stop => some s.cleanup

/-- A server that has just been started. -/
def start (tables : Tables) : Server := ⟨⟨tables, none⟩, .never, [], ∅, [], tables.commandAudit⟩

end Etheos.TimedSaves
