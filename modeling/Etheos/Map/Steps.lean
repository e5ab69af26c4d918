import Etheos.Map.Visibility

/-! Where walkers are after a step, and which steps go over the edge of the coordinates. -/
namespace Etheos.Maps

/-- A character, and what else of it a step has to do with. `casting` is for the target, the event and
the readiness of a spell, which `CancelSpell` takes away together. -/
structure Walker where
  character : Character
  direction : Direction
  attacks : Nat
  casting : Bool
  guide : Bool
  deriving DecidableEq

structure NPCWalker where
  npc : NPC
  direction : Direction
  deriving DecidableEq

variable (cfg : MapConfig) (map : GameMap)

section Admits

variable (target : Tile)

/-- The tests of `Map::Walk` for the tile that is to be entered. -/
def Character.admitted (self : Character) (admin : Bool) (now : Int) : Prop :=
  map.inBounds target ∧
    (admin ∨ map.walkable cfg target false ∧
      ¬(map.occupiedByPlayer target false ∧ now < self.lastWalk + cfg.ghostTimer)) ∧
    ((map.tiles target).warp.isSet → admin ∧
      ¬((map.tiles target).warp.levelreq ≤ self.level ∧
        ((map.tiles target).warp.noDoor ∨ (map.tiles target).warp.isOpen)))

instance (self : Character) (admin : Bool) (now : Int) : Decidable (self.admitted cfg map target admin now) :=
  inferInstanceAs (Decidable (_ ∧ _))

def NPC.admitted (self : NPC) : Prop :=
  map.walkable cfg target true ∧ ¬map.occupiedByPlayer target (self.aggressive || self.hasParent) ∧
    ¬map.occupiedByNPC target

instance (self : NPC) : Decidable (self.admitted cfg map target) := inferInstanceAs (Decidable (_ ∧ _))

end Admits

/-- The warp is refused: the map it leads to is being evacuated. Nothing is done then. -/
def Walker.held (evacuated : Int → Bool) (walker : Walker) (direction : Direction) : Bool :=
  match walker.character.tile.next direction with
  | none => false
  | some target => !walker.guide && evacuated (map.tiles target).warp.map

/-- The character after `Map::Walk`, or nothing if it has been warped. `evacuated` tells of the other maps. -/
def Walker.walk (evacuated : Int → Bool) (walker : Walker) (direction : Direction) (admin : Bool) (now : Int) :
    Option Walker :=
  match Maps.walk cfg map walker.character direction admin now with
  | .fail => some walker
  | .warped => if walker.held map evacuated direction then some walker else none
  | .ok target _ => some { walker with
      character := { walker.character with tile := target, lastWalk := now }
      direction := direction
      attacks := 0
      casting := false }

/-- The NPC after `Map::Walk`. -/
def NPCWalker.walk (walker : NPCWalker) (direction : Direction) : Option NPCWalker :=
  match npcWalk cfg map walker.npc direction with
  | .fail => some walker
  | .warped => none
  | .ok target _ => some { npc := { walker.npc with tile := target }, direction := direction }

/-- A step of one tile in the direction, without going around. -/
def Tile.Adjacent (old new : Tile) (direction : Direction) : Prop :=
  old.coords = new.behind direction

instance (old new : Tile) (direction : Direction) : Decidable (old.Adjacent new direction) :=
  inferInstanceAs (Decidable (_ = _))

section Next

variable {tile target : Tile} {direction : Direction}

/-- The step down from the last row is not noticed to run over. -/
theorem next_down_last (hLast : tile.y = 255) : tile.next .down = some { tile with y := 0 } := by
  have hSame : ¬tile.x < tile.x := by simp
  simp only [Tile.next, if_neg hSame, hLast]
  rfl

theorem adjacent_iff (h : tile.next direction = some target) :
    tile.Adjacent target direction ↔ ¬(direction = .down ∧ tile.y = 255) := by
  have hx := tile.x.toNat_lt
  have hy := tile.y.toNat_lt
  unfold Tile.Adjacent
  rw [Prod.ext_iff]
  cases direction with
  | down =>
      obtain ⟨-, hTarget⟩ := Option.ite_none_left_eq_some.mp h
      obtain rfl := Option.some.inj hTarget
      dsimp only [Tile.behind, Tile.coords]
      simp only [UInt8.toNat_add, UInt8.reduceToNat, true_and, ← UInt8.toNat_inj]
      omega
  | left | up | right =>
      obtain ⟨hWithin, hTarget⟩ := Option.ite_none_left_eq_some.mp h
      obtain rfl := Option.some.inj hTarget
      dsimp only [Tile.behind, Tile.coords]
      simp only [UInt8.lt_iff_toNat_lt, UInt8.toNat_add, UInt8.toNat_sub, UInt8.reduceToNat] at hWithin ⊢
      simp only [reduceCtorEq, false_and, not_false_eq_true, iff_true, true_and, and_true]
      omega

/-- A step leads to another tile. -/
theorem next_ne (h : tile.next direction = some target) : target ≠ tile := by
  have hx := tile.x.toNat_lt
  have hy := tile.y.toNat_lt
  rintro rfl
  cases direction with
  | down | up =>
      obtain ⟨-, hTarget⟩ := Option.ite_none_left_eq_some.mp h
      have hRow := congrArg (fun tile : Tile => tile.y.toNat) (Option.some.inj hTarget)
      simp only [UInt8.toNat_add, UInt8.toNat_sub, UInt8.reduceToNat] at hRow
      omega
  | left | right =>
      obtain ⟨-, hTarget⟩ := Option.ite_none_left_eq_some.mp h
      have hColumn := congrArg (fun tile : Tile => tile.x.toNat) (Option.some.inj hTarget)
      simp only [UInt8.toNat_add, UInt8.toNat_sub, UInt8.reduceToNat] at hColumn
      omega

/-- Whatever tiles are open to a walker, the only step around is the one onto the first row. -/
theorem within_iff (isOpen : Tile → Prop) :
    (∀ target, tile.next direction = some target → isOpen target → tile.Adjacent target direction) ↔
      ¬(direction = .down ∧ tile.y = 255 ∧ isOpen { tile with y := 0 }) := by
  constructor
  · rintro hWithin ⟨rfl, hLast, hOpen⟩
    have hNext := next_down_last hLast
    exact (adjacent_iff hNext).mp (hWithin _ hNext hOpen) ⟨rfl, hLast⟩
  · intro hWithin target hNext hOpen
    refine (adjacent_iff hNext).mpr ?_
    rintro ⟨rfl, hLast⟩
    obtain rfl := Option.some.inj ((next_down_last hLast).symm.trans hNext)
    exact hWithin ⟨rfl, hLast, hOpen⟩

end Next

section Walks

variable {cfg} {map} {target : Tile} {direction : Direction}

theorem walk_ok_iff {self : Character} {admin : Bool} {now : Int} {sent : List Sent} :
    walk cfg map self direction admin now = .ok target sent ↔ self.tile.next direction = some target ∧
      self.admitted cfg map target admin now ∧ sent = walkSent cfg map { self with tile := target } direction := by
  constructor
  · intro h
    obtain ⟨hNext, hSent⟩ := walk_cases h
    refine ⟨hNext, ?_, hSent⟩
    rw [walk, hNext] at h
    dsimp only at h
    split at h
    · cases h
    next hIn =>
      split at h
      · cases h
      next hFree =>
        split at h
        · cases h
        next hShut =>
          split at h
          · cases h
          next hWarp =>
            unfold Character.admitted
            grind
  · rintro ⟨hNext, ⟨hIn, hFree, hWarp⟩, rfl⟩
    rw [walk, hNext]
    dsimp only
    rw [if_neg (by grind), if_neg (by grind), if_neg (by grind), if_neg (by grind)]

theorem npcWalk_ok_iff {self : NPC} {sent : List Sent} :
    npcWalk cfg map self direction = .ok target sent ↔ self.tile.next direction = some target ∧
      self.admitted cfg map target ∧ sent = npcWalkSent cfg map { self with tile := target } direction := by
  constructor
  · intro h
    obtain ⟨hNext, hSent⟩ := npcWalk_cases h
    refine ⟨hNext, ?_, hSent⟩
    rw [npcWalk, hNext] at h
    dsimp only at h
    split at h
    · cases h
    next hFree =>
      unfold NPC.admitted
      grind
  · rintro ⟨hNext, ⟨hIn, hFree⟩, rfl⟩
    rw [npcWalk, hNext]
    dsimp only
    rw [if_neg (by grind)]

end Walks

/-- The walker is as before, or one tile further. It may have been warped. -/
def Walker.Steps (walker : Walker) (direction : Direction) (after : Option Walker) : Prop :=
  ∀ moved, after = some moved →
    moved = walker ∨ walker.character.tile.Adjacent moved.character.tile direction

def NPCWalker.Steps (walker : NPCWalker) (direction : Direction) (after : Option NPCWalker) : Prop :=
  ∀ moved, after = some moved → moved = walker ∨ walker.npc.tile.Adjacent moved.npc.tile direction

/-- Whoever is let onto the first row from the last one goes around. -/
def Walker.goesAround (walker : Walker) (direction : Direction) (admin : Bool) (now : Int) : Prop :=
  direction = .down ∧ walker.character.tile.y = 255 ∧
    walker.character.admitted cfg map { walker.character.tile with y := 0 } admin now

def NPCWalker.goesAround (walker : NPCWalker) (direction : Direction) : Prop :=
  direction = .down ∧ walker.npc.tile.y = 255 ∧ walker.npc.admitted cfg map { walker.npc.tile with y := 0 }

section Walkers

variable {cfg} {map} {direction : Direction}

theorem Walker.walk_of_ok {evacuated : Int → Bool} {walker : Walker} {admin : Bool} {now : Int} {target : Tile}
    {sent : List Sent} (h : Maps.walk cfg map walker.character direction admin now = .ok target sent) :
    walker.walk cfg map evacuated direction admin now = some { walker with
      character := { walker.character with tile := target, lastWalk := now }
      direction := direction
      attacks := 0
      casting := false } := by
  rw [walk, h]

/-- Only who is let onto a tile is changed. -/
theorem Walker.walk_cases {evacuated : Int → Bool} {walker moved : Walker} {admin : Bool} {now : Int}
    (h : walker.walk cfg map evacuated direction admin now = some moved) :
    moved = walker ∨
      ∃ sent, Maps.walk cfg map walker.character direction admin now = .ok moved.character.tile sent := by
  unfold walk at h
  split at h
  · exact .inl (Option.some.inj h).symm
  · split at h
    · exact .inl (Option.some.inj h).symm
    · cases h
  next target sent hOk =>
    obtain rfl := Option.some.inj h
    exact .inr ⟨sent, hOk⟩

theorem NPCWalker.walk_of_ok {walker : NPCWalker} {target : Tile} {sent : List Sent}
    (h : npcWalk cfg map walker.npc direction = .ok target sent) : walker.walk cfg map direction =
      some { npc := { walker.npc with tile := target }, direction := direction } := by
  rw [walk, h]

theorem NPCWalker.walk_cases {walker moved : NPCWalker} (h : walker.walk cfg map direction = some moved) :
    moved = walker ∨ ∃ sent, npcWalk cfg map walker.npc direction = .ok moved.npc.tile sent := by
  unfold walk at h
  split at h
  · exact .inl (Option.some.inj h).symm
  · cases h
  next target sent hOk =>
    obtain rfl := Option.some.inj h
    exact .inr ⟨sent, hOk⟩

theorem Walker.steps_iff (evacuated : Int → Bool) (walker : Walker) (admin : Bool) (now : Int) :
    walker.Steps direction (walker.walk cfg map evacuated direction admin now) ↔
      ¬walker.goesAround cfg map direction admin now := by
  refine Iff.trans ?_ (within_iff fun target => walker.character.admitted cfg map target admin now)
  constructor
  · intro hSteps target hNext hAdmitted
    obtain hSame | hAdjacent := hSteps _ (walk_of_ok (walk_ok_iff.mpr ⟨hNext, hAdmitted, rfl⟩))
    · exact absurd (congrArg (fun walker : Walker => walker.character.tile) hSame) (next_ne hNext)
    · exact hAdjacent
  · intro hWithin moved hMoved
    obtain hSame | ⟨sent, hOk⟩ := walk_cases hMoved
    · exact .inl hSame
    · obtain ⟨hNext, hAdmitted, -⟩ := walk_ok_iff.mp hOk
      exact .inr (hWithin _ hNext hAdmitted)

theorem NPCWalker.steps_iff (walker : NPCWalker) :
    walker.Steps direction (walker.walk cfg map direction) ↔ ¬walker.goesAround cfg map direction := by
  refine Iff.trans ?_ (within_iff fun target => walker.npc.admitted cfg map target)
  constructor
  · intro hSteps target hNext hAdmitted
    obtain hSame | hAdjacent := hSteps _ (walk_of_ok (npcWalk_ok_iff.mpr ⟨hNext, hAdmitted, rfl⟩))
    · exact absurd (congrArg (fun walker : NPCWalker => walker.npc.tile) hSame) (next_ne hNext)
    · exact hAdjacent
  · intro hWithin moved hMoved
    obtain hSame | ⟨sent, hOk⟩ := walk_cases hMoved
    · exact .inl hSame
    · obtain ⟨hNext, hAdmitted, -⟩ := npcWalk_ok_iff.mp hOk
      exact .inr (hWithin _ hNext hAdmitted)

end Walkers

/-- The only step that is neither one tile nor nothing is the one down from the last row. -/
theorem one_tile_iff (cfg : MapConfig) (map : GameMap) :
    (∀ (evacuated : Int → Bool) (walker : Walker) (direction : Direction) (admin : Bool) (now : Int),
      walker.Steps direction (walker.walk cfg map evacuated direction admin now) ↔
        ¬walker.goesAround cfg map direction admin now) ∧
    ∀ (walker : NPCWalker) (direction : Direction),
      walker.Steps direction (walker.walk cfg map direction) ↔ ¬walker.goesAround cfg map direction :=
  ⟨fun evacuated walker _ admin now => walker.steps_iff evacuated admin now, fun walker _ => walker.steps_iff⟩

/-- Somebody who has been warped to the last row, with the mood to go on. -/
def stray : Walker := ⟨{ wanderer with tile := ⟨5, 255⟩ }, .down, 0, false, false⟩

theorem around_the_meadow :
    ¬stray.Steps .down (stray.walk nearSighted meadow (fun _ => false) .down false 0) := by
  intro hSteps
  have hOk : Maps.walk nearSighted meadow stray.character .down false 0 = .ok ⟨5, 0⟩ _ := rfl
  obtain hSame | hAdjacent := hSteps _ (Walker.walk_of_ok hOk)
  · exact absurd (congrArg (fun walker : Walker => walker.character.tile) hSame) (by decide)
  · exact absurd hAdjacent (by decide)

end Etheos.Maps
