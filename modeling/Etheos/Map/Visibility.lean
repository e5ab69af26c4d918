import Etheos.Map.Walk

/-! Who is told of a step. -/
namespace Etheos.Maps

open General Stores

/-- The place comes into the range around a tile. -/
def Enters (seedistance : Int) (old new place : Coords) : Prop :=
  distance place new ≤ seedistance ∧ seedistance < distance place old

/-- The place goes out of it. -/
def Leaves (seedistance : Int) (old new place : Coords) : Prop :=
  distance place old ≤ seedistance ∧ seedistance < distance place new

instance (r : Int) (old new place : Coords) : Decidable (Enters r old new place) :=
  inferInstanceAs (Decidable (_ ∧ _))

instance (r : Int) (old new place : Coords) : Decidable (Leaves r old new place) :=
  inferInstanceAs (Decidable (_ ∧ _))

section Edges

variable {seedistance : Int} {tile : Tile} {direction : Direction} {place : Coords}

/-- Where one comes from. -/
def Tile.behind (tile : Tile) (direction : Direction) : Coords :=
  let (x, y) := tile.coords
  match direction with
  | .up => (x, y + 1)
  | .right => (x - 1, y)
  | .down => (x, y - 1)
  | .left => (x + 1, y)

/-- How far a place lies in the direction of the step. -/
def ahead (tile : Tile) (direction : Direction) (place : Coords) : Int :=
  match direction with
  | .up => tile.coords.2 - place.2
  | .right => place.1 - tile.coords.1
  | .down => place.2 - tile.coords.2
  | .left => tile.coords.1 - place.1

def beside (tile : Tile) (direction : Direction) (place : Coords) : Int :=
  match direction with
  | .up | .down => place.1 - tile.coords.1
  | .right | .left => place.2 - tile.coords.2

theorem distance_coords : distance place tile.coords =
    (ahead tile direction place).natAbs + (beside tile direction place).natAbs := by
  unfold distance pathLength
  cases direction with
  | right => rfl
  | down | left | up =>
      dsimp only [ahead, beside]
      omega

theorem distance_behind : distance place (tile.behind direction) =
    (ahead tile direction place + 1).natAbs + (beside tile direction place).natAbs := by
  unfold distance pathLength
  cases direction with
  | down | left | up | right =>
      dsimp only [ahead, beside, Tile.behind]
      omega

theorem enters_iff : Enters seedistance (tile.behind direction) tile.coords place ↔
    beside tile direction place ∈ offsets seedistance ∧
      ahead tile direction place = seedistance - (beside tile direction place).natAbs := by
  rw [Enters, @distance_coords _ direction, distance_behind, mem_offsets]
  exact enters_diamond_iff

theorem leaves_iff : Leaves seedistance (tile.behind direction) tile.coords place ↔
    beside tile direction place ∈ offsets seedistance ∧
      ahead tile direction place = (beside tile direction place).natAbs - seedistance - 1 := by
  rw [Leaves, @distance_coords _ direction, distance_behind, mem_offsets]
  exact leaves_diamond_iff

/-- The formulas of the four directions say the same. -/
theorem new_edge_iff (i : Int) : place = (edge seedistance tile direction i).1 ↔
    i = beside tile direction place ∧
      ahead tile direction place = seedistance - (beside tile direction place).natAbs := by
  rw [Prod.ext_iff]
  cases direction with
  | down | left | up | right =>
      dsimp only [edge, ahead, beside]
      omega

theorem old_edge_iff (i : Int) : place = (edge seedistance tile direction i).2 ↔
    i = beside tile direction place ∧
      ahead tile direction place = (beside tile direction place).natAbs - seedistance - 1 := by
  rw [Prod.ext_iff]
  cases direction with
  | down | left | up | right =>
      dsimp only [edge, ahead, beside]
      omega

/-- A step onto the tile next to it comes from behind. -/
theorem next_behind {target : Tile} (h : tile.next direction = some target)
    (hOne : distance tile.coords target.coords = 1) : tile.coords = target.behind direction := by
  have hx := tile.x.toNat_lt
  have hy := tile.y.toNat_lt
  rw [Prod.ext_iff]
  unfold distance pathLength at hOne
  cases direction with
  | down | left | up | right =>
      obtain ⟨-, hTarget⟩ := Option.ite_none_left_eq_some.mp h
      obtain rfl := Option.some.inj hTarget
      dsimp only [Tile.behind, Tile.coords] at hOne ⊢
      simp only [UInt8.toNat_add, UInt8.toNat_sub, UInt8.reduceToNat, true_and, and_true] at hOne ⊢
      omega

end Edges

section Loops

variable {α : Type} {seedistance : Int} {tile : Tile} {direction : Direction} {place : α → Coords}

/-- A place is found once at most. -/
theorem found_once {a : α} {found : Coords × Coords → Prop} [DecidablePred found] {q : Prop} [Decidable q]
    {k : Int} (h : ∀ i ∈ offsets seedistance, found (edge seedistance tile direction i) ↔ i = k ∧ q)
    (hk : q → k ∈ offsets seedistance) :
    (((edges seedistance tile direction).filter fun c => found c).map fun _ => a) = if q then [a] else [] := by
  have hUnique := filter_of_unique (offsets_nodup seedistance)
    (p := fun i => found (edge seedistance tile direction i)) h hk
  rw [edges, List.filter_map, List.map_map]
  refine (congrArg (List.map _) hUnique).trans ?_
  split
  · rfl
  · rfl

theorem oldOnes_eq (all : List α) : oldOnes (edges seedistance tile direction) place all =
    all.filter fun a => Leaves seedistance (tile.behind direction) tile.coords (place a) := by
  rw [← flatMap_ite]
  refine List.flatMap_congr fun a _ => found_once (k := beside tile direction (place a)) (fun i hi => ?_) ?_
  · rw [old_edge_iff, leaves_iff]
    exact and_congr_right fun hSide => (and_iff_right (hSide ▸ hi)).symm
  · exact fun hLeaves => (leaves_iff.mp hLeaves).1

theorem newItems_eq (all : List α) : newItems (edges seedistance tile direction) place all =
    all.filter fun a => Enters seedistance (tile.behind direction) tile.coords (place a) := by
  rw [← flatMap_ite]
  refine List.flatMap_congr fun a _ => found_once (k := beside tile direction (place a)) (fun i hi => ?_) ?_
  · rw [new_edge_iff, enters_iff]
    exact and_congr_right fun hSide => (and_iff_right (hSide ▸ hi)).symm
  · exact fun hEnters => (enters_iff.mp hEnters).1

/-- No place is on both edges. -/
theorem edges_apart (i : Int) (a : Coords) :
    ¬(a = (edge seedistance tile direction i).2 ∧ a = (edge seedistance tile direction i).1) := by
  rw [old_edge_iff, new_edge_iff]
  omega

theorem newOnes_eq (all : List α) : newOnes (edges seedistance tile direction) place all =
    all.filter fun a => Enters seedistance (tile.behind direction) tile.coords (place a) := by
  rw [← newItems_eq]
  refine List.flatMap_congr fun a _ => congrArg _ (List.filter_congr fun c hc => ?_)
  obtain ⟨i, -, rfl⟩ := List.mem_map.mp hc
  have hApart := @edges_apart seedistance tile direction i (place a)
  exact decide_eq_decide.mpr ⟨fun h => h.2, fun h => ⟨fun hOld => hApart ⟨hOld, h⟩, h⟩⟩

end Loops

/-- Those who get a message, once for every time. -/
def receivers (message : Message) (sent : List Sent) : List Nat :=
  sent.filterMap fun s => if s.2 = message then some s.1 else none

/-- All that a client gets. -/
def heard (playerId : Nat) (sent : List Sent) : List Message :=
  sent.filterMap fun s => if s.1 = playerId then some s.2 else none

theorem receivers_append (message : Message) (sent more : List Sent) :
    receivers message (sent ++ more) = receivers message sent ++ receivers message more :=
  List.filterMap_append

theorem receivers_cons (message : Message) (first : Sent) (sent : List Sent) :
    receivers message (first :: sent) =
      if first.2 = message then first.1 :: receivers message sent else receivers message sent := by
  unfold receivers
  rw [List.filterMap_cons]
  split
  case h_1 hNone => simp_all
  case h_2 hSome => simp_all

theorem heard_append (playerId : Nat) (sent more : List Sent) :
    heard playerId (sent ++ more) = heard playerId sent ++ heard playerId more :=
  List.filterMap_append

theorem heard_cons (playerId : Nat) (first : Sent) (sent : List Sent) :
    heard playerId (first :: sent) =
      if first.1 = playerId then first.2 :: heard playerId sent else heard playerId sent := by
  unfold heard
  rw [List.filterMap_cons]
  split
  case h_1 hNone => simp_all
  case h_2 hSome => simp_all

section Messages

variable {message own : Message} {who : Nat} {all : List Character} {other : Character → Message}

theorem receivers_exchange (h : ∀ c ∈ all, other c ≠ message) :
    receivers message (all.flatMap fun c => [(c.playerId, own), (who, other c)]) =
      if own = message then all.map (·.playerId) else [] := by
  induction all with
  | nil => simp [receivers]
  | cons c rest ih =>
      obtain ⟨hFirst, hRest⟩ := List.forall_mem_cons.mp h
      have hTail := ih hRest
      unfold receivers at hTail ⊢
      rw [List.flatMap_cons, List.filterMap_append, hTail]
      by_cases hOwn : own = message
      · simp [hOwn, hFirst]
      · simp [hOwn, hFirst]

theorem heard_exchange (h : ∀ c ∈ all, c.playerId ≠ who) :
    heard who (all.flatMap fun c => [(c.playerId, own), (who, other c)]) = all.map other := by
  induction all with
  | nil => rfl
  | cons c rest ih =>
      obtain ⟨hFirst, hRest⟩ := List.forall_mem_cons.mp h
      have hTail := ih hRest
      unfold heard at hTail ⊢
      rw [List.flatMap_cons, List.filterMap_append, hTail]
      simp [hFirst]

theorem heard_others (h : ∀ c ∈ all, c.playerId ≠ who) :
    heard who (all.map fun c => (c.playerId, other c)) = [] := by
  unfold heard
  rw [List.filterMap_map]
  refine List.filterMap_eq_nil_iff.mpr fun c hc => ?_
  exact if_neg (h c hc)

theorem heard_self {α : Type} (all : List α) (own : α → Message) :
    heard who (all.map fun a => (who, own a)) = all.map own := by
  simp [heard]

theorem receivers_map {α : Type} {all : List α} {dest : α → Nat} {other : α → Message}
    (h : ∀ a, other a ≠ message) : receivers message (all.map fun a => (dest a, other a)) = [] := by
  simp [receivers, h]

theorem receivers_all {α : Type} (all : List α) (dest : α → Nat) :
    receivers message (all.map fun a => (dest a, message)) = all.map dest := by
  simp [receivers]

end Messages

section Sent

variable {cfg : MapConfig} {map : GameMap} {direction : Direction} {target : Tile} {sent : List Sent}

section Character

variable {self : Character}

theorem walk_cases {admin : Bool} {now : Int} (h : walk cfg map self direction admin now = .ok target sent) :
    self.tile.next direction = some target ∧ sent = walkSent cfg map { self with tile := target } direction := by
  unfold walk at h
  split at h
  · cases h
  case h_2 next hNext =>
    split at h
    · cases h
    · split at h
      · cases h
      · dsimp only at h
        split at h
        · cases h
        · split at h
          · cases h
          · cases h
            exact ⟨hNext, rfl⟩

/-- The other characters on the map. -/
def GameMap.others (map : GameMap) (self : Character) : List Character :=
  map.characters.filter fun c => c.playerId ≠ self.playerId

theorem not_self {c : Character} (h : c ∈ map.others self) : c.playerId ≠ self.playerId :=
  of_decide_eq_true (List.mem_filter.mp h).2

/-- The edges are the ones that they are meant to be. -/
theorem walkSent_eq (hOld : self.tile.next direction = some target)
    (hOne : distance self.tile.coords target.coords = 1) :
    walkSent cfg map { self with tile := target } direction =
      (((map.others self).filter fun c =>
        Leaves cfg.seeDistance self.tile.coords target.coords c.tile.coords).flatMap fun c =>
          [(c.playerId, .avatarRemove self.playerId), (self.playerId, .avatarRemove c.playerId)]) ++
      (((map.others self).filter fun c =>
        Enters cfg.seeDistance self.tile.coords target.coords c.tile.coords).flatMap fun c =>
          [(c.playerId, .playersAgree self.playerId target),
            (self.playerId, .playersAgree c.playerId c.tile)]) ++
      (((map.others self).filter (inRange cfg { self with tile := target })).map fun c =>
        (c.playerId, .walkPlayer self.playerId direction target)) ++
      (self.playerId, .walkReply (map.items.filter fun item =>
        Enters cfg.seeDistance self.tile.coords target.coords (itemCoords item))) ::
      ((((map.npcs.filter (·.alive)).filter fun npc =>
        Enters cfg.seeDistance self.tile.coords target.coords npc.tile.coords).map fun npc =>
          (self.playerId, .rangeReply npc.index npc.tile)) ++
      ((map.npcs.filter (·.alive)).filter fun npc =>
        Leaves cfg.seeDistance self.tile.coords target.coords npc.tile.coords).map fun npc =>
          (self.playerId, .npcRemove npc.index)) := by
  rw [next_behind hOld hOne]
  simp only [walkSent, oldOnes_eq, newOnes_eq, newItems_eq]
  rfl

theorem walk_appeared (hOld : self.tile.next direction = some target)
    (hOne : distance self.tile.coords target.coords = 1) :
    receivers (.playersAgree self.playerId target) (walkSent cfg map { self with tile := target } direction) =
      ((map.others self).filter fun c =>
        Enters cfg.seeDistance self.tile.coords target.coords c.tile.coords).map (·.playerId) := by
  have hOther : ∀ c ∈ (map.others self).filter (fun c =>
      Enters cfg.seeDistance self.tile.coords target.coords c.tile.coords),
      Message.playersAgree c.playerId c.tile ≠ .playersAgree self.playerId target := by
    intro c hc hSame
    exact not_self (List.mem_of_mem_filter hc) (Message.playersAgree.inj hSame).1
  rw [walkSent_eq hOld hOne]
  rw [receivers_append, receivers_append, receivers_append, receivers_exchange hOther]
  simp [receivers_append, receivers_cons, receivers_exchange, receivers_map]

theorem walk_left (hOld : self.tile.next direction = some target)
    (hOne : distance self.tile.coords target.coords = 1) :
    receivers (.avatarRemove self.playerId) (walkSent cfg map { self with tile := target } direction) =
      ((map.others self).filter fun c =>
        Leaves cfg.seeDistance self.tile.coords target.coords c.tile.coords).map (·.playerId) := by
  have hOther : ∀ c ∈ (map.others self).filter (fun c =>
      Leaves cfg.seeDistance self.tile.coords target.coords c.tile.coords),
      Message.avatarRemove c.playerId ≠ .avatarRemove self.playerId := by
    intro c hc hSame
    exact not_self (List.mem_of_mem_filter hc) (Message.avatarRemove.inj hSame)
  rw [walkSent_eq hOld hOne]
  rw [receivers_append, receivers_append, receivers_append, receivers_exchange hOther]
  simp [receivers_append, receivers_cons, receivers_exchange, receivers_map]

theorem walk_heard (hOld : self.tile.next direction = some target)
    (hOne : distance self.tile.coords target.coords = 1) :
    heard self.playerId (walkSent cfg map { self with tile := target } direction) =
      (((map.others self).filter fun c =>
        Leaves cfg.seeDistance self.tile.coords target.coords c.tile.coords).map fun c =>
          .avatarRemove c.playerId) ++
      (((map.others self).filter fun c =>
        Enters cfg.seeDistance self.tile.coords target.coords c.tile.coords).map fun c =>
          .playersAgree c.playerId c.tile) ++
      .walkReply (map.items.filter fun item =>
        Enters cfg.seeDistance self.tile.coords target.coords (itemCoords item)) ::
      ((((map.npcs.filter (·.alive)).filter fun npc =>
        Enters cfg.seeDistance self.tile.coords target.coords npc.tile.coords).map fun npc =>
          .rangeReply npc.index npc.tile) ++
      ((map.npcs.filter (·.alive)).filter fun npc =>
        Leaves cfg.seeDistance self.tile.coords target.coords npc.tile.coords).map fun npc =>
          .npcRemove npc.index) := by
  have hOthers (p : Character → Bool) : ∀ c ∈ (map.others self).filter p, c.playerId ≠ self.playerId :=
    fun c hc => not_self (List.mem_of_mem_filter hc)
  rw [walkSent_eq hOld hOne]
  simp only [heard_append, heard_cons]
  rw [heard_exchange (hOthers _), heard_exchange (hOthers _), heard_others (hOthers _), heard_self, heard_self]
  simp

end Character

section NPC

variable {self : NPC}

theorem npcWalk_cases (h : npcWalk cfg map self direction = .ok target sent) :
    self.tile.next direction = some target ∧ sent = npcWalkSent cfg map { self with tile := target } direction := by
  unfold npcWalk at h
  split at h
  · cases h
  case h_2 next hNext =>
    dsimp only at h
    split at h
    · cases h
    · cases h
      exact ⟨hNext, rfl⟩

theorem npcWalk_appeared (hOld : self.tile.next direction = some target)
    (hOne : distance self.tile.coords target.coords = 1) :
    receivers (.rangeReply self.index target) (npcWalkSent cfg map { self with tile := target } direction) =
      (map.characters.filter fun c =>
        Enters cfg.seeDistance self.tile.coords target.coords c.tile.coords).map (·.playerId) := by
  rw [next_behind hOld hOne]
  simp only [npcWalkSent, oldOnes_eq, newOnes_eq]
  simp [receivers_append, receivers_all, receivers_map]

theorem npcWalk_left (hOld : self.tile.next direction = some target)
    (hOne : distance self.tile.coords target.coords = 1) :
    receivers (.npcRemove self.index) (npcWalkSent cfg map { self with tile := target } direction) =
      (map.characters.filter fun c =>
        Leaves cfg.seeDistance self.tile.coords target.coords c.tile.coords).map (·.playerId) := by
  rw [next_behind hOld hOne]
  simp only [npcWalkSent, oldOnes_eq, newOnes_eq]
  simp [receivers_append, receivers_all, receivers_map]

end NPC

end Sent

/-- Who sees a step of one tile is told of it, once, and whoever walks is told what it sees. NPCs that
are dead are not seen. -/
theorem walk_visibility (cfg : MapConfig) (map : GameMap) :
    (∀ (self : Character) (direction : Direction) (admin : Bool) (now : Int) (target : Tile) (sent : List Sent),
      walk cfg map self direction admin now = .ok target sent → distance self.tile.coords target.coords = 1 →
      receivers (.playersAgree self.playerId target) sent =
        ((map.others self).filter fun c =>
          Enters cfg.seeDistance self.tile.coords target.coords c.tile.coords).map (·.playerId) ∧
      receivers (.avatarRemove self.playerId) sent =
        ((map.others self).filter fun c =>
          Leaves cfg.seeDistance self.tile.coords target.coords c.tile.coords).map (·.playerId) ∧
      heard self.playerId sent =
        (((map.others self).filter fun c =>
          Leaves cfg.seeDistance self.tile.coords target.coords c.tile.coords).map fun c =>
            .avatarRemove c.playerId) ++
        (((map.others self).filter fun c =>
          Enters cfg.seeDistance self.tile.coords target.coords c.tile.coords).map fun c =>
            .playersAgree c.playerId c.tile) ++
        .walkReply (map.items.filter fun item =>
          Enters cfg.seeDistance self.tile.coords target.coords (itemCoords item)) ::
        ((((map.npcs.filter (·.alive)).filter fun npc =>
          Enters cfg.seeDistance self.tile.coords target.coords npc.tile.coords).map fun npc =>
            .rangeReply npc.index npc.tile) ++
        ((map.npcs.filter (·.alive)).filter fun npc =>
          Leaves cfg.seeDistance self.tile.coords target.coords npc.tile.coords).map fun npc =>
            .npcRemove npc.index)) ∧
    ∀ (self : NPC) (direction : Direction) (target : Tile) (sent : List Sent),
      npcWalk cfg map self direction = .ok target sent → distance self.tile.coords target.coords = 1 →
      receivers (.rangeReply self.index target) sent =
        (map.characters.filter fun c =>
          Enters cfg.seeDistance self.tile.coords target.coords c.tile.coords).map (·.playerId) ∧
      receivers (.npcRemove self.index) sent =
        (map.characters.filter fun c =>
          Leaves cfg.seeDistance self.tile.coords target.coords c.tile.coords).map (·.playerId) := by
  constructor
  · intro self direction admin now target sent hWalk hOne
    obtain ⟨hNext, rfl⟩ := walk_cases hWalk
    exact ⟨walk_appeared hNext hOne, walk_left hNext hOne, walk_heard hNext hOne⟩
  · intro self direction target sent hWalk hOne
    obtain ⟨hNext, rfl⟩ := npcWalk_cases hWalk
    exact ⟨npcWalk_appeared hNext hOne, npcWalk_left hNext hOne⟩

section Meadow

/-- A small map with a dead NPC on it. -/
def corpse : NPC := ⟨3, ⟨4, 5⟩, false, false, false⟩

def hare : NPC := ⟨4, ⟨7, 6⟩, true, false, false⟩

def wanderer : Character := ⟨1, ⟨5, 5⟩, false, 0, 0, true, false⟩

def meadow : GameMap where
  width := 20
  height := 20
  tiles _ := ⟨.none, ⟨0, 0, true, false⟩⟩
  characters := [wanderer, ⟨2, ⟨8, 5⟩, false, 0, 0, true, false⟩]
  npcs := [corpse, hare]
  items := []

def nearSighted : MapConfig := ⟨1, 0, false⟩

theorem dead_npc_not_told :
    ¬∀ (cfg : MapConfig) (map : GameMap) (self : Character) (direction : Direction) (admin : Bool) (now : Int)
      (target : Tile) (sent : List Sent),
      walk cfg map self direction admin now = .ok target sent → distance self.tile.coords target.coords = 1 →
      ∀ npc ∈ map.npcs, Leaves cfg.seeDistance self.tile.coords target.coords npc.tile.coords →
        Message.npcRemove npc.index ∈ heard self.playerId sent := fun h =>
  absurd (h nearSighted meadow wanderer .right false 0 ⟨6, 5⟩ _ rfl (by decide) corpse (by decide) (by decide))
    (by decide)

/-- The next step brings the other character into sight, and the hare goes out of its way. -/
theorem walk_visibility_meadow :
    receivers (.playersAgree 1 ⟨7, 5⟩) (walkSent nearSighted meadow { wanderer with tile := ⟨7, 5⟩ } .right) = [2] ∧
    receivers (.npcRemove 4) (npcWalkSent nearSighted meadow { hare with tile := ⟨8, 6⟩ } .right) = [] :=
  ⟨((walk_visibility nearSighted meadow).1 { wanderer with tile := ⟨6, 5⟩ } .right false 0 ⟨7, 5⟩ _ rfl
      (by decide)).1.trans (by decide),
    ((walk_visibility nearSighted meadow).2 hare .right ⟨8, 6⟩ _ rfl (by decide)).2.trans (by decide)⟩

end Meadow

end Etheos.Maps
