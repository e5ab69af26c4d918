import Etheos.Map.Load

/-! Idle characters are sucked into the warps next to them. All warps are queued first, and then one
after the other is taken. -/
namespace Etheos.WarpSuck

open MapFiles (TileSpec)

structure Map extends MapFiles.Map Unit Nat Unit Unit where
  evacuateLock : Bool

structure Place where
  map : Int
  x : Nat
  y : Nat
  deriving DecidableEq

structure Character where
  place : Place
  level : Nat
  lastWalk : ℚ

/-- Characters have numbers, and each one is on one map. `enter` is what else `Map::Enter` does to them,
with the rules of their quests. -/
structure World where
  maps : List Map
  characters : Nat → Character
  /-- `SourceAccess() >= ADMIN_GUIDE` -/
  isGuide : Nat → Bool
  warpSuck : ℚ
  now : ℚ
  enter : (Nat → Character) → Nat → Nat → Character
  apart : (maps.flatMap (·.characters)).Nodup

/-- `Warp_Suck_Action` -/
structure Action where
  character : Nat
  target : Place

structure Queue where
  characters : Nat → Character
  actions : List Action

/-- `warps` are the warps that have been made. -/
structure State where
  characters : Nat → Character
  warps : List (Nat × Place)

def warpAt (map : Map) (x y : Nat) : Option MapFiles.Warp :=
  if map.inBounds x y then map.tiles[y * map.width + x]?.map (·.warp) else none

/-- The body of `check_warp`. The specs are `NoDoor` and `Door`. -/
def checkWarp (map : Map) (level : Nat) (tile : Nat × Nat) : Option Place :=
  match warpAt map tile.1 tile.2 with
  | none => none
  | some warp =>
      if warp.map = 0 ∨ level < warp.levelreq ∨ warp.spec ≠ 1 ∧ warp.spec ≠ 0 then none
      else some ⟨warp.map, warp.x, warp.y⟩

/-- The tiles that are tested. -/
def around (map : Map) (x y : Nat) : List (Nat × Nat) :=
  [(x, y)] ++ (if 0 < x then [(x - 1, y)] else []) ++ (if x < map.width then [(x + 1, y)] else []) ++
    (if 0 < y then [(x, y - 1)] else []) ++ (if y < map.height then [(x, y + 1)] else [])

def checkWarps (map : Map) (character : Character) : List Place :=
  (around map character.place.x character.place.y).filterMap (checkWarp map character.level)

/-- `GetMap`, with the first map for an id that there is not. -/
def getMap (maps : List Map) (id : Int) : Option Map :=
  (if 1 ≤ id then maps[(id - 1).toNat]? else none).or maps[0]?

namespace World

variable (world : World)

/-- The body of the first loop. -/
def visit (map : Map) (s : Queue) (c : Nat) : Queue :=
  if world.now ≤ (s.characters c).lastWalk + world.warpSuck then s
  else
    { characters := Function.update s.characters c { s.characters c with lastWalk := world.now }
      actions := s.actions ++ (checkWarps map (s.characters c)).map (Action.mk c) }

def queue : Queue :=
  world.maps.foldl (fun s map => map.characters.foldl (world.visit map) s) ⟨world.characters, []⟩

/-- `Character::Warp` -/
def warp (s : State) (c : Nat) (target : Place) : State :=
  if target.map ≤ 0 ∨ world.maps.length < target.map ∨ ¬(getMap world.maps target.map).any (·.loaded) then s
  else
    { characters := world.enter (Function.update s.characters c { s.characters c with place := target }) c
      warps := s.warps ++ [(c, target)] }

/-- The body of the second loop. -/
def act (s : State) (action : Action) : State :=
  if ¬world.isGuide action.character ∧ (getMap world.maps action.target.map).any (·.evacuateLock) then s
  else world.warp s action.character action.target

/-- `world_warp_suck` -/
def warpSuckRun : State := world.queue.actions.foldl world.act ⟨world.queue.characters, []⟩

def Idle (c : Nat) : Prop := (world.characters c).lastWalk + world.warpSuck < world.now

/-- The map lets the character in. -/
def Admits (c : Nat) (target : Place) : Prop :=
  (world.isGuide c ∨ ¬(getMap world.maps target.map).any (·.evacuateLock)) ∧
    0 < target.map ∧ target.map ≤ world.maps.length ∧ (getMap world.maps target.map).any (·.loaded)

instance (c : Nat) : Decidable (world.Idle c) := inferInstanceAs (Decidable (_ < _))

instance (c : Nat) (target : Place) : Decidable (world.Admits c target) := inferInstanceAs (Decidable (_ ∧ _))

/-- The ways that are open to a character on the tiles around it. -/
def ways (map : Map) (c : Nat) : List Place :=
  (checkWarps map (world.characters c)).filter (world.Admits c ·)

end World

/-- The tile or one next to it. -/
def Beside (place : Place) (tile : Nat × Nat) : Prop :=
  tile.1 = place.x ∧ (tile.2 = place.y ∨ tile.2 + 1 = place.y ∨ tile.2 = place.y + 1) ∨
    tile.2 = place.y ∧ (tile.1 + 1 = place.x ∨ tile.1 = place.x + 1)

/-- Each character is warped once at most, to where a warp beside it goes. -/
structure Sucked (world : World) (warps : List (Nat × Place)) : Prop where
  once : (warps.map Prod.fst).Nodup
  near : ∀ entry ∈ warps, ∃ map ∈ world.maps, entry.1 ∈ map.characters ∧ world.Idle entry.1 ∧
    ∃ tile, Beside (world.characters entry.1).place tile ∧
      ∃ warp, warpAt map tile.1 tile.2 = some warp ∧ warp.map ≠ 0 ∧ entry.2 = ⟨warp.map, warp.x, warp.y⟩

section Queued

variable {world : World}

/-- What is queued for a character. -/
def queued (world : World) (map : Map) (c : Nat) : List Action :=
  if world.Idle c then (checkWarps map (world.characters c)).map (Action.mk c) else []

theorem visit_actions (map : Map) {s : Queue} {c : Nat} (hSame : s.characters c = world.characters c) :
    (world.visit map s c).actions = s.actions ++ queued world map c := by
  rw [World.visit, queued, hSame]
  split
  case isTrue hWalked =>
    have hNot : ¬world.Idle c := not_lt.mpr hWalked
    rw [if_neg hNot, List.append_nil]
  case isFalse hStood =>
    have hIdle : world.Idle c := not_le.mp hStood
    rw [if_pos hIdle]

theorem visit_others (map : Map) (s : Queue) {c other : Nat} (h : other ≠ c) :
    (world.visit map s c).characters other = s.characters other := by
  unfold World.visit
  split
  · rfl
  · exact Function.update_of_ne h _ _

/-- The visits of a map, each of which finds its character as it was. -/
theorem foldl_visit (map : Map) {characters : List Nat} (hApart : characters.Nodup) {s : Queue}
    (hSame : ∀ c ∈ characters, s.characters c = world.characters c) :
    (characters.foldl (world.visit map) s).actions = s.actions ++ characters.flatMap (queued world map) ∧
      ∀ other ∉ characters, (characters.foldl (world.visit map) s).characters other = s.characters other := by
  induction characters generalizing s with
  | nil => simp
  | cons c rest ih =>
      obtain ⟨hNew, hRest⟩ := List.nodup_cons.mp hApart
      obtain ⟨hHere, hLater⟩ := List.forall_mem_cons.mp hSame
      have hNext : ∀ other ∈ rest, (world.visit map s c).characters other = world.characters other := by
        intro other hOther
        have hNe : other ≠ c := ne_of_mem_of_not_mem hOther hNew
        rw [visit_others map s hNe, hLater other hOther]
      obtain ⟨hActions, hOthers⟩ := ih hRest hNext
      constructor
      · rw [List.foldl_cons, hActions, visit_actions map hHere, List.flatMap_cons, List.append_assoc]
      · intro other hOther
        obtain ⟨hNe, hNot⟩ : other ≠ c ∧ other ∉ rest := by simpa using hOther
        rw [List.foldl_cons, hOthers other hNot, visit_others map s hNe]

theorem foldl_maps {maps : List Map} (hApart : (maps.flatMap (·.characters)).Nodup) {s : Queue}
    (hSame : ∀ c ∈ maps.flatMap (·.characters), s.characters c = world.characters c) :
    (maps.foldl (fun s map => map.characters.foldl (world.visit map) s) s).actions =
      s.actions ++ maps.flatMap fun map => map.characters.flatMap (queued world map) := by
  induction maps generalizing s with
  | nil => simp
  | cons map rest ih =>
      rw [List.flatMap_cons] at hApart hSame
      obtain ⟨hHere, hRest, hDisjoint⟩ := List.nodup_append'.mp hApart
      obtain ⟨hActions, hOthers⟩ := foldl_visit map hHere fun c hc => hSame c (List.mem_append_left _ hc)
      rw [List.foldl_cons, ih hRest, hActions, List.flatMap_cons, List.append_assoc]
      intro c hc
      rw [hOthers c (fun hMap => hDisjoint hMap hc)]
      exact hSame c (List.mem_append_right _ hc)

theorem queue_actions (world : World) :
    world.queue.actions = world.maps.flatMap fun map => map.characters.flatMap (queued world map) := by
  rw [World.queue, foldl_maps world.apart (fun _ _ => rfl), List.nil_append]

end Queued

section Taken

variable {world : World}

theorem act_warps (s : State) (action : Action) :
    (world.act s action).warps =
      s.warps ++ if world.Admits action.character action.target then [(action.character, action.target)] else [] := by
  unfold World.act World.warp
  by_cases hAdmits : world.Admits action.character action.target
  · obtain ⟨hOpen, hMin, hMax, hThere⟩ := id hAdmits
    rw [if_pos hAdmits, if_neg (by tauto), if_neg]
    simp only [not_or, not_not]
    exact ⟨by omega, by omega, hThere⟩
  · rw [if_neg hAdmits, List.append_nil]
    split
    · rfl
    case isFalse hOpen =>
      rw [if_pos]
      by_contra hMap
      simp only [not_or, not_not, not_le, not_lt] at hMap
      exact hAdmits ⟨by tauto, hMap⟩

/-- What is made of the queue depends on nothing that a warp changes. -/
theorem foldl_act (s : State) (actions : List Action) :
    (actions.foldl world.act s).warps =
      s.warps ++ actions.flatMap fun action =>
        if world.Admits action.character action.target then [(action.character, action.target)] else [] := by
  induction actions generalizing s with
  | nil => simp
  | cons action rest ih => rw [List.foldl_cons, ih, act_warps, List.flatMap_cons, List.append_assoc]

/-- A character with its map. -/
def visits (world : World) : List (Map × Nat) :=
  world.maps.flatMap fun map => map.characters.map fun c => (map, c)

def taken (world : World) (visit : Map × Nat) : List (Nat × Place) :=
  if world.Idle visit.2 then (world.ways visit.1 visit.2).map fun target => (visit.2, target) else []

theorem taken_eq (map : Map) (c : Nat) :
    ((queued world map c).flatMap fun action =>
      if world.Admits action.character action.target then [(action.character, action.target)] else []) =
      taken world (map, c) := by
  rw [queued, taken, World.ways]
  split
  · rw [List.flatMap_map]
    induction checkWarps map (world.characters c) with
    | nil => rfl
    | cons target rest ih =>
        rw [List.flatMap_cons, ih, List.filter_cons]
        split <;> simp_all
  · rfl

theorem run_warps (world : World) : world.warpSuckRun.warps = (visits world).flatMap (taken world) := by
  rw [World.warpSuckRun, foldl_act, queue_actions, List.nil_append, visits, List.flatMap_assoc, List.flatMap_assoc]
  congr 1
  funext map
  rw [List.flatMap_assoc, List.flatMap_map]
  congr 1
  funext c
  exact taken_eq map c

end Taken

section Once

variable {world : World}

theorem around_beside {map : Map} {place : Place} {tile : Nat × Nat} (h : tile ∈ around map place.x place.y) :
    Beside place tile := by
  simp only [around, List.mem_append, List.mem_singleton] at h
  rcases h with (((rfl | hLeft) | hRight) | hUp) | hDown
  · exact .inl ⟨rfl, .inl rfl⟩
  · split at hLeft
    · obtain rfl := List.mem_singleton.mp hLeft
      exact .inr ⟨rfl, .inl (by dsimp only; omega)⟩
    · cases hLeft
  · split at hRight
    · obtain rfl := List.mem_singleton.mp hRight
      exact .inr ⟨rfl, .inr rfl⟩
    · cases hRight
  · split at hUp
    · obtain rfl := List.mem_singleton.mp hUp
      exact .inl ⟨rfl, .inr (.inl (by dsimp only; omega))⟩
    · cases hUp
  · split at hDown
    · obtain rfl := List.mem_singleton.mp hDown
      exact .inl ⟨rfl, .inr (.inr rfl)⟩
    · cases hDown

theorem checkWarp_target {map : Map} {level : Nat} {tile : Nat × Nat} {target : Place}
    (h : checkWarp map level tile = some target) :
    ∃ warp, warpAt map tile.1 tile.2 = some warp ∧ warp.map ≠ 0 ∧ target = ⟨warp.map, warp.x, warp.y⟩ := by
  unfold checkWarp at h
  split at h
  · cases h
  case h_2 warp hWarp =>
    split at h
    · cases h
    case isFalse hTakes => exact ⟨warp, hWarp, fun hNone => hTakes (.inl hNone), (Option.some.inj h).symm⟩

theorem mem_taken {visit : Map × Nat} {entry : Nat × Place} (h : entry ∈ taken world visit) :
    entry.1 = visit.2 ∧ world.Idle visit.2 ∧ entry.2 ∈ world.ways visit.1 visit.2 := by
  rw [taken] at h
  split at h
  case isTrue hIdle =>
    obtain ⟨target, hTarget, rfl⟩ := List.mem_map.mp h
    exact ⟨rfl, hIdle, hTarget⟩
  case isFalse => cases h

theorem taken_near {map : Map} (hMap : map ∈ world.maps) {c : Nat} (hc : c ∈ map.characters) {entry : Nat × Place}
    (h : entry ∈ taken world (map, c)) :
    ∃ map ∈ world.maps, entry.1 ∈ map.characters ∧ world.Idle entry.1 ∧
      ∃ tile, Beside (world.characters entry.1).place tile ∧
        ∃ warp, warpAt map tile.1 tile.2 = some warp ∧ warp.map ≠ 0 ∧ entry.2 = ⟨warp.map, warp.x, warp.y⟩ := by
  obtain ⟨hSelf, hIdle, hWay⟩ := mem_taken h
  obtain ⟨tile, hTile, hWarp⟩ := List.mem_filterMap.mp (List.mem_filter.mp hWay).1
  rw [hSelf]
  exact ⟨map, hMap, hc, hIdle, tile, around_beside hTile, checkWarp_target hWarp⟩

/-- A visit warps its own character only, as often as there are ways. -/
theorem taken_characters (visit : Map × Nat) :
    (taken world visit).map Prod.fst = List.replicate (taken world visit).length visit.2 :=
  List.map_eq_replicate_iff.mpr fun _ h => (mem_taken h).1

theorem visits_apart (world : World) : (visits world).Pairwise fun a b => a.2 ≠ b.2 := by
  have hCharacters : (visits world).map Prod.snd = world.maps.flatMap (·.characters) := by
    simp [visits, List.map_flatMap]
  have hApart := world.apart
  rw [← hCharacters, List.Nodup, List.pairwise_map] at hApart
  exact hApart

theorem once_iff (world : World) :
    (world.warpSuckRun.warps.map Prod.fst).Nodup ↔ ∀ visit ∈ visits world, (taken world visit).length ≤ 1 := by
  rw [run_warps, List.map_flatMap, List.nodup_flatMap]
  have hDisjoint : (visits world).Pairwise
      (Function.onFun List.Disjoint fun visit => (taken world visit).map Prod.fst) := by
    apply (visits_apart world).imp
    intro a b hApart c ha hb
    simp only [taken_characters] at ha hb
    exact hApart ((List.eq_of_mem_replicate ha).symm.trans (List.eq_of_mem_replicate hb))
  rw [and_iff_left hDisjoint]
  apply forall₂_congr
  intro visit _
  rw [taken_characters, List.nodup_replicate]

/-- The run is as it should be exactly if no idle character has two ways open to it. -/
theorem sucked_iff (world : World) :
    Sucked world world.warpSuckRun.warps ↔
      ∀ map ∈ world.maps, ∀ c ∈ map.characters, world.Idle c → (world.ways map c).length ≤ 1 := by
  have hVisit : ∀ map c, (map, c) ∈ visits world ↔ map ∈ world.maps ∧ c ∈ map.characters := by
    intro map c
    simp [visits]
  constructor
  · intro h map hMap c hc hIdle
    have hOnce := (once_iff world).mp h.once (map, c) ((hVisit map c).mpr ⟨hMap, hc⟩)
    simpa [taken, hIdle] using hOnce
  · intro h
    constructor
    · apply (once_iff world).mpr
      intro ⟨map, c⟩ hMem
      obtain ⟨hMap, hc⟩ := (hVisit map c).mp hMem
      rw [taken]
      split
      case isTrue hIdle => simpa using h map hMap c hc hIdle
      case isFalse => simp
    · intro entry hEntry
      rw [run_warps] at hEntry
      obtain ⟨⟨map, c⟩, hMem, hTaken⟩ := List.mem_flatMap.mp hEntry
      obtain ⟨hMap, hc⟩ := (hVisit map c).mp hMem
      exact taken_near hMap hc hTaken

/-- Between the doors of two houses. -/
def betweenDoors : World where
  maps := [{
    id := 1
    rid := [1, 1, 1, 1]
    pk := false
    effect := 0
    filesize := 50
    width := 3
    height := 1
    scroll := false
    relogX := 0
    relogY := 0
    loaded := true
    hasTimedSpikes := false
    characters := [7]
    npcs := []
    chests := []
    tiles := [⟨TileSpec.none, ⟨1, 0, 0, 0, 0, false⟩⟩, .start, ⟨TileSpec.none, ⟨1, 2, 0, 0, 0, false⟩⟩]
    arena := none
    wedding := none
    evacuateLock := false }]
  characters _ := ⟨⟨1, 1, 0⟩, 10, 0⟩
  isGuide _ := false
  warpSuck := 15
  now := 20
  enter characters _ := characters
  apart := List.nodup_singleton 7

theorem betweenDoors_counterexample : ¬∀ world : World, Sucked world world.warpSuckRun.warps := by
  intro h
  have hWarps : betweenDoors.warpSuckRun.warps.map Prod.fst = [7, 7] := by decide +kernel
  have hOnce := (h betweenDoors).once
  rw [hWarps] at hOnce
  revert hOnce
  decide

end Once

end Etheos.WarpSuck
