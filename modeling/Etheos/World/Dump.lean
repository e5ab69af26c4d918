import Etheos.General.Removal
import Etheos.Packet.Processor
import Etheos.Stores.Chest
import Etheos.Stores.Ground

/-! The world dump, which is written when the server stops and put back when it starts.
Characters and guilds go to the database, and what lies on the maps goes to the maps. -/
namespace Etheos.WorldDump

open Characters General General.Entries Stores

/-- `data` stands for the columns that are only copied. -/
structure CharacterRecord where
  name : Bytes
  account : Bytes
  usage : Int
  data : Bytes
  deriving Repr, DecidableEq

structure GuildRecord where
  tag : Bytes
  name : Bytes
  description : Bytes
  ranks : Bytes
  bank : Int
  deriving Repr, DecidableEq

structure ItemRecord where
  mapId : Int
  x : Int
  y : Int
  itemId : Int
  amount : Int
  uid : Int
  deriving Repr, DecidableEq

structure ChestRecord where
  mapId : Int
  x : Int
  y : Int
  itemId : Int
  amount : Int
  slot : Int
  deriving Repr, DecidableEq

/-- `items` and `chests` are the map state. -/
structure Dump where
  characters : List CharacterRecord
  guilds : List GuildRecord
  items : List ItemRecord
  chests : List ChestRecord
  deriving Repr, DecidableEq

structure CharacterRow where
  account : Bytes
  usage : Int
  data : Bytes
  deriving Repr, DecidableEq

structure GuildRow where
  name : Bytes
  description : Bytes
  ranks : Bytes
  bank : Int
  deriving Repr, DecidableEq

structure Tables where
  characters : Bytes → Option CharacterRow
  guilds : Bytes → Option GuildRow

/-- A `Map_Item` whose fields fit their types. -/
structure GroundItem extends MapItem where
  id_short : toShort id = id
  uid_short : toShort uid = uid
  x_byte : x % 256 = x
  y_byte : y % 256 = y
  deriving DecidableEq

structure GameMap where
  id : Int
  items : List GroundItem
  chests : List MapChest

/-- How the database answers a statement. The result of a query may carry an error. -/
inductive Answer where
  | ok
  | error
  | throws
  deriving Repr, DecidableEq

/-- The answers to all statements of one call, by the keys of the records. -/
structure Faults where
  selectCharacter : Bytes → Answer
  writeCharacter : Bytes → Answer
  selectGuild : Bytes → Answer
  writeGuild : Bytes → Answer
  getGuildThrows : Bytes → Bool
  commitThrows : Bool
  rollbackThrows : Bool

section Restore

/-- The `UPDATE` of a character keeps the account. -/
def CharacterRow.update (row : CharacterRow) (c : CharacterRecord) : CharacterRow :=
  { row with usage := c.usage, data := c.data }

def CharacterRecord.insert (c : CharacterRecord) : CharacterRow := ⟨c.account, c.usage, c.data⟩

/-- The `UPDATE` of a guild keeps the name. -/
def GuildRow.update (row : GuildRow) (g : GuildRecord) : GuildRow :=
  { row with description := g.description, ranks := g.ranks, bank := g.bank }

def GuildRecord.insert (g : GuildRecord) : GuildRow := ⟨g.name, g.description, g.ranks, g.bank⟩

def Tables.putCharacter (db : Tables) (name : Bytes) (row : CharacterRow) : Tables :=
  { db with characters := Function.update db.characters name (some row) }

def Tables.putGuild (db : Tables) (tag : Bytes) (row : GuildRow) : Tables :=
  { db with guilds := Function.update db.guilds tag (some row) }

/-- The row that is written for a character. A newer one stays. -/
def writtenCharacter (db : Tables) (c : CharacterRecord) : Option CharacterRow :=
  match db.characters c.name with
  | none => some c.insert
  | some row => if row.usage ≤ c.usage then some (row.update c) else none

def restoreCharacter (faults : Faults) (db : Tables) (c : CharacterRecord) : Verdict Tables :=
  match faults.selectCharacter c.name with
  | .throws => .throw
  | .error => .keep
  | .ok =>
      match writtenCharacter db c with
      | none => .erase db
      | some row =>
          match faults.writeCharacter c.name with
          | .throws => .throw
          | .error => .keep
          | .ok => .erase (db.putCharacter c.name row)

def writtenGuild (db : Tables) (g : GuildRecord) : GuildRow :=
  match db.guilds g.tag with
  | none => g.insert
  | some row => row.update g

/-- A guild is loaded after it has been taken off the dump. -/
def restoreGuild (faults : Faults) (db : Tables) (g : GuildRecord) : Verdict Tables :=
  match faults.selectGuild g.tag with
  | .throws => .throw
  | .error => .keep
  | .ok =>
      match faults.writeGuild g.tag with
      | .throws => .throw
      | .error => .keep
      | .ok =>
          if faults.getGuildThrows g.tag then .eraseThrow else .erase (db.putGuild g.tag (writtenGuild db g))

/-- What the two loops leave. -/
structure Restored where
  db : Tables
  characters : List CharacterRecord
  guilds : List GuildRecord
  thrown : Bool

def restoreRecords (faults : Faults) (db : Tables) (dump : Dump) : Restored :=
  let cs := removeEach (restoreCharacter faults) db dump.characters
  if cs.thrown then ⟨cs.state, cs.left, dump.guilds, true⟩
  else
    let gs := removeEach (restoreGuild faults) cs.state dump.guilds
    ⟨gs.state, cs.left, gs.left, gs.thrown⟩

def ItemRecord.item (i : ItemRecord) : GroundItem where
  toCharacterItem := .of (toShort i.itemId) i.amount
  uid := toShort i.uid
  x := i.x % 256
  y := i.y % 256
  owner := 0
  unprotecttime := 0
  id_short := toShort_toShort _
  uid_short := toShort_toShort _
  x_byte := Int.emod_emod_of_dvd _ (Int.dvd_refl _)
  y_byte := Int.emod_emod_of_dvd _ (Int.dvd_refl _)

def restoreItem (maps : List GameMap) (i : ItemRecord) : List GameMap :=
  modifyFirst (·.id = i.mapId) (fun map => { map with items := map.items ++ [i.item] }) maps

def ChestRecord.add (c : ChestRecord) (chest : MapChest) : MapChest × Int :=
  chest.addItem (toShort c.itemId) (toInt c.amount) (toInt c.slot)

def restoreChest (maps : List GameMap) (c : ChestRecord) : List GameMap :=
  modifyFirst (·.id = c.mapId)
    (fun map => { map with
      chests := modifyFirst (fun chest => chest.x = c.x ∧ chest.y = c.y) (fun chest => (c.add chest).1)
        map.chests })
    maps

def restoreMapState (dump : Dump) (maps : List GameMap) : List GameMap :=
  dump.chests.foldl restoreChest (dump.items.foldl restoreItem maps)

/-- The database as committed, the maps, and the dump file. -/
structure ServerState where
  db : Tables
  maps : List GameMap
  file : Option Dump

/-- The file goes once all characters and guilds are restored. -/
def rewriteFile (dump : Dump) (done : Restored) : Option Dump :=
  if done.characters = [] ∧ done.guilds = [] then none
  else some { dump with characters := done.characters, guilds := done.guilds }

def failed (faults : Faults) (db : Tables) (dump : Dump) : Bool :=
  (restoreRecords faults db dump).thrown || faults.commitThrows

/-- The exception of `Rollback` leaves the function. -/
def escapes (faults : Faults) (db : Tables) (dump : Dump) : Bool :=
  failed faults db dump && faults.rollbackThrows

def restoreFromDump (faults : Faults) (s : ServerState) : ServerState :=
  match s.file with
  | none => s
  | some dump =>
      if escapes faults s.db dump then s
      else
        let done := restoreRecords faults s.db dump
        { db := if failed faults s.db dump then s.db else done.db
          maps := restoreMapState dump s.maps
          file := rewriteFile dump done }

end Restore

section Write

def GameMap.dumpItems (map : GameMap) : List ItemRecord :=
  map.items.map fun item => ⟨map.id, item.x, item.y, item.id, item.amount, item.uid⟩

def GameMap.dumpChest (map : GameMap) (chest : MapChest) : List ChestRecord :=
  chest.items.map fun item => ⟨map.id, chest.x, chest.y, item.id, item.amount, item.slot⟩

/-- A record replaces the first one of the same name. -/
def upsertCharacter (records : List CharacterRecord) (c : CharacterRecord) : List CharacterRecord :=
  eraseFirst (·.name = c.name) records ++ [c]

def upsertGuild (records : List GuildRecord) (g : GuildRecord) : List GuildRecord :=
  eraseFirst (·.tag = g.tag) records ++ [g]

/-- The file that was there is merged with the characters and guilds of the world. Its
map state is overwritten. -/
def dumpToFile (characters : List CharacterRecord) (guilds : List GuildRecord) (maps : List GameMap)
    (existing : Option Dump) : Dump :=
  let dump := existing.getD ⟨[], [], [], []⟩
  { characters := characters.foldl upsertCharacter dump.characters
    guilds := guilds.foldl upsertGuild dump.guilds
    items := maps.flatMap GameMap.dumpItems
    chests := maps.flatMap fun map => map.chests.flatMap map.dumpChest }

end Write

end Etheos.WorldDump
