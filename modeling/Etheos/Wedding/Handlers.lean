import Etheos.Wedding.CeremonyRuns

/-! Law and priest: the requests that lead to a marriage or end one, and what happens to the
characters that take part. -/
namespace Etheos.Weddings

open General
open Guilds (Name)

/-- The settings for weddings. -/
structure Config where
  marriagePrice : Int
  divorcePrice : Int
  weddingMinLevel : Int

/-- `Character::ValidName`. -/
def validName (name : Name) : Bool :=
  4 ≤ name.text.length && name.text.length ≤ 12 && name.text.all (fun c => 97 ≤ c && c ≤ 122) &&
    name ≠ .of [115, 101, 114, 118, 101, 114]

/-- `DelItem(1, amount)`. -/
def Character.delGold (self : Character) (amount : Int) : Character :=
  if amount ≤ 0 then self
  else
    let left := if self.around.gold < 0 ∨ self.around.gold - amount ≤ 0 then 0 else self.around.gold - amount
    { self with around := { self.around with gold := left } }

namespace World

variable (cfg : Config) (w : World) (c : Name) (self : Character)

/-- Where a character that is not in the world is married to `c`, it is not any more. -/
def forget (name : Name) : World :=
  { w with rows := w.rows.modify name fun row => if row.partner = c then { row with partner := ∅ } else row }

/-- The partner becomes single, wherever it is. -/
def leavePartner (name : Name) : World :=
  match w.getCharacter name with
  | some _ => w.modifyCharacter name ({ · with partner := ∅ })
  | none => w.forget c name

section Law

/-- The price is not looked at. It is taken for the second argument of `HasItem`. -/
def approve (name : Name) : World :=
  if self.partner ≠ ∅ then w
  else if self.around.gold = 0 then w
  else if validName name then
    w.modifyCharacter c fun self => { self.delGold cfg.marriagePrice with fiance := name }
  else w

def divorce (name : Name) : World :=
  if self.partner = ∅ then w
  else if self.around.gold = 0 then w
  else if self.partner ≠ name then w
  else
    (w.leavePartner c name).modifyCharacter c fun self => { self.delGold cfg.divorcePrice with partner := ∅ }

/-- `Marriage_Request`. -/
def marriageRequest (type : Nat) (name : Name) : World :=
  if self.npcType ≠ .law then w
  else if type = 1 then w.approve cfg c self name
  else if type = 2 then w.divorce cfg c self name
  else w

end Law

section Priest

/-- `Priest_Open`. -/
def priestOpen : World :=
  if self.partner ≠ ∅ then w
  else
    match w.weddings.lookup self.map with
    | none => w
    | some wedding => if wedding.state ≠ 0 then w else w.modifyCharacter c ({ · with npcType := .priest })

/-- `Priest_Request`. Where the priest is busy it is said so, and nothing else. -/
def priestRequest (name : Name) : Option World :=
  if self.npcType ≠ .priest then some w
  else do
    let _ ← w.weddings.lookup self.map
    if name ≠ self.fiance ∨ name = c then return w
    match w.getCharacter self.fiance with
    | none => return w
    | some partner =>
        if partner.map ≠ self.map then return w
        if partner.fiance ≠ c then return w
        if partner.partner ≠ ∅ then return w
        if self.around.dressed = false then return w
        if partner.around.dressed = false then return w
        if self.around.level < cfg.weddingMinLevel then return w
        return w.modifyWedding self.map (·.requestWedding c self.fiance)

/-- `Priest_Accept`. -/
def priestAccept : Option World :=
  if self.partner ≠ ∅ then some w
  else
    match w.weddings.lookup self.map, w.getCharacter self.fiance with
    | some wedding, some partner =>
        if partner.map ≠ self.map then some w
        else if self.fiance ∈ wedding.requests then
          w.onWedding self.map (fun _ => none) fun s => (s.startWedding self.fiance c).map (·.2)
        else some w
    | _, _ => some w

/-- `Priest_Use`. -/
def priestUse : Option World := w.iDo self.map c self

end Priest

section Presence

/-- One of the characters of an account is loaded. -/
def load (row : Row) (around : Surroundings) : World :=
  { w with characters := w.characters.insert c ⟨false, 0, .npc, row.fiance, row.partner, around⟩ }

/-- The destructor of a character. Only one in the world is saved. -/
def unload : World :=
  let w :=
    if self.online then
      let w := w.leaveMap c self
      { w with rows := w.rows.modify c fun _ => ⟨self.fiance, self.partner⟩ }
    else w
  { w with characters := w.characters.erase c }

/-- `Character_Remove`, which asks the character as it was loaded for its partner. -/
def remove : World :=
  let w := w.leavePartner c self.partner
  { w with rows := w.rows.erase c, characters := w.characters.erase c }

end Presence

end World

inductive Event
  | lawOpen (c : Name)
  | marriageRequest (c : Name) (type : Nat) (name : Name)
  | priestOpen (c : Name)
  | priestRequest (c : Name) (name : Name)
  | priestAccept (c : Name)
  | priestUse (c : Name)
  | tick (map : MapId) (ring : Name → Option MapId)
  | walk (c : Name)
  | warp (c : Name) (map : MapId)
  | surroundings (c : Name) (around : Surroundings)
  | priest (map : MapId) (present : Bool)
  | load (c : Name) (around : Surroundings)
  | enter (c : Name) (map : MapId)
  | leave (c : Name)
  | create (c : Name)
  | remove (c : Name)

def step (cfg : Config) (w : World) : Event → Option World
  | .lawOpen c => (w.getCharacter c).map fun _ => w.modifyCharacter c ({ · with npcType := .law })
  | .marriageRequest c type name => (w.getCharacter c).map fun self => w.marriageRequest cfg c self type name
  | .priestOpen c => (w.getCharacter c).map fun self => w.priestOpen c self
  | .priestRequest c name => (w.getCharacter c).bind fun self => w.priestRequest cfg c self name
  | .priestAccept c => (w.getCharacter c).bind fun self => w.priestAccept c self
  | .priestUse c => (w.getCharacter c).bind fun self => w.priestUse c self
  | .tick map ring => w.tick map ring
  | .walk c => (w.getCharacter c).map fun _ => w.modifyCharacter c ({ · with npcType := .npc })
  | .warp c map => (w.getCharacter c).map fun self => w.warp c self map
  | .surroundings c around => (w.getCharacter c).map fun _ => w.modifyCharacter c ({ · with around })
  | .priest map present => some (w.modifyWedding map ({ · with priest := present }))
  | .load c around =>
      match w.characters.lookup c, w.rows.lookup c with
      | none, some row => some (w.load c row around)
      | _, _ => none
  | .enter c map =>
      match w.characters.lookup c with
      | some self => if self.online then none else some (w.modifyCharacter c ({ · with online := true, map }))
      | none => none
  | .leave c => (w.characters.lookup c).map fun self => w.unload c self
  | .create c =>
      if validName c ∧ (w.rows.lookup c).isNone then some { w with rows := w.rows.insert c ⟨∅, ∅⟩ } else none
  | .remove c =>
      match w.characters.lookup c with
      | some self => if self.online then none else some (w.remove c self)
      | none => none

end Etheos.Weddings
