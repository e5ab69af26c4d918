import Etheos.General.Run
import Etheos.Map.Load

/-! The indices of the NPCs on a map. Those of the file are numbered from zero on, and a temporary NPC
takes the first one from one on that is free. -/
namespace Etheos.MapFiles

open General

/-- What the constructor sets. `index` is an `unsigned char`. -/
structure Npc where
  id : Int
  spawnX : Nat
  spawnY : Nat
  spawnType : Nat
  spawnTime : Int
  index : UInt8
  temporary : Bool
  deriving DecidableEq

def Npc.of (spawn : NpcSpawn) (temporary : Bool) : Npc where
  id := spawn.id
  spawnX := spawn.spawnX
  spawnY := spawn.spawnY
  spawnType := min spawn.spawnType 7
  spawnTime := if 7 ≤ spawn.spawnType then 0 else spawn.spawnTime
  index := UInt8.ofInt spawn.index
  temporary := temporary

/-- The search from `lowest_free_id` on, with a number of turns. -/
def searchFrom (npcs : List Npc) : Nat → UInt8 → Option UInt8
  | 0, _ => none
  | fuel + 1, lowestFreeId =>
      if npcs.any (·.index = lowestFreeId) then searchFrom npcs fuel (lowestFreeId + 1) else some lowestFreeId

/-- After 256 turns it has come round, and goes on for ever. -/
def generateNPCIndex (npcs : List Npc) : Option UInt8 := searchFrom npcs 256 1

/-- The loop of `SpawnNPC`. -/
def spawnNpcs (make : UInt8 → Npc) : Nat → List Npc → Option (List Npc)
  | 0, npcs => some npcs
  | amount + 1, npcs => do
      let index ← generateNPCIndex npcs
      if 250 < index then return npcs else spawnNpcs make amount (npcs ++ [make index])

variable {C A W : Type}

/-- The NPCs of `Load` are made by the constructor. -/
def World.withNpcs (world : World Npc C A W) : World Npc C A W :=
  { world with newNpc := fun _ spawn => .of spawn false }

/-- The constructor of a map. -/
def Map.construct (world : World Npc C A W) (map : Map Npc C A W) : Map Npc C A W :=
  let map := (map.unload.load world.withNpcs).2
  let map := { map with arena := world.loadArena map }
  { map with wedding := world.loadWedding map }

/-- The files may be others each time. -/
inductive Event (C A W : Type)
  | reload (world : World Npc C A W)
  | spawnNPC (dataSize : Nat) (id amount : Int) (speed : Nat) (direction : Int) (x y : Nat)
  | die (i : Nat)

/-- A temporary NPC that dies is gone. -/
def die (npcs : List Npc) (i : Nat) : List Npc :=
  if npcs[i]?.any (·.temporary) then npcs.eraseIdx i else npcs

def step (map : Map Npc C A W) : Event C A W → Option (Map Npc C A W)
  | .reload world => some (map.reload world.withNpcs).2
  | .spawnNPC dataSize id amount speed direction x y =>
      if id ≤ 0 ∨ dataSize < id then some map
      else do
        let npcs ← spawnNpcs (fun index => .of ⟨Characters.toShort id, x, y, speed, direction, index.toNat⟩ true)
          amount.toNat map.npcs
        return { map with npcs := npcs }
  | .die i => some { map with npcs := die map.npcs i }

def indices (npcs : List Npc) : List UInt8 := npcs.map Npc.index

def Within (map : Map Npc C A W) : Prop := map.npcs.length ≤ 255

instance (map : Map Npc C A W) : Decidable (Within map) := inferInstanceAs (Decidable (_ ≤ _))

/-- No index is there twice, and the last one is not taken. -/
structure Distinct (npcs : List Npc) : Prop where
  nodup : (indices npcs).Nodup
  free : 255 ∉ indices npcs

section Search

variable {npcs : List Npc} {fuel : Nat} {id index : UInt8}

theorem searchFrom_unused (h : searchFrom npcs fuel id = some index) : index ∉ indices npcs := by
  induction fuel generalizing id with
  | zero => cases h
  | succ fuel ih =>
      rw [searchFrom] at h
      split at h
      case isTrue => exact ih h
      case isFalse hUnused =>
        rw [← Option.some.inj h]
        simpa [indices] using hUnused

theorem searchFrom_none (h : searchFrom npcs fuel id = none) {k : Nat} (hk : k < fuel) :
    id + UInt8.ofNat k ∈ indices npcs := by
  induction fuel generalizing id k with
  | zero => exact absurd hk (Nat.not_lt_zero k)
  | succ fuel ih =>
      rw [searchFrom] at h
      split at h
      case isTrue hUsed =>
        cases k with
        | zero => simpa [indices] using hUsed
        | succ k =>
            have hNext := ih h (Nat.lt_of_succ_lt_succ hk)
            rw [UInt8.ofNat_add, UInt8.add_comm (UInt8.ofNat k), ← UInt8.add_assoc]
            exact hNext
      case isFalse => cases h

/-- A search that has ended does not need more turns. -/
theorem searchFrom_more (h : searchFrom npcs fuel id = some index) (more : Nat) :
    searchFrom npcs (fuel + more) id = some index := by
  induction fuel generalizing id with
  | zero => cases h
  | succ fuel ih =>
      rw [searchFrom] at h
      rw [Nat.succ_add, searchFrom]
      split at h
      case isTrue hUsed => rw [if_pos hUsed, ih h]
      case isFalse hUnused => rw [if_neg hUnused, h]

/-- The search fails only if every index is taken. -/
theorem generateNPCIndex_isSome (h : ∃ id, id ∉ indices npcs) : ∃ index, generateNPCIndex npcs = some index := by
  obtain ⟨id, hFree⟩ := h
  cases hSearch : generateNPCIndex npcs with
  | some index => exact ⟨index, rfl⟩
  | none =>
      have hTaken := searchFrom_none hSearch (id - 1).toNat_lt
      rw [UInt8.ofNat_toNat, UInt8.add_comm, UInt8.sub_add_cancel] at hTaken
      exact absurd hTaken hFree

theorem ofNat_injOn : Set.InjOn UInt8.ofNat {n | n < 256} := by
  intro a ha b hb hSame
  have hNat := congrArg UInt8.toNat hSame
  rwa [UInt8.toNat_ofNat_of_lt' ha, UInt8.toNat_ofNat_of_lt' hb] at hNat

theorem exists_free (h : (indices npcs).toFinset.card ≤ 255) : ∃ id, id ∉ indices npcs := by
  by_contra hAll
  have hEvery : (Finset.range 256).image UInt8.ofNat ⊆ (indices npcs).toFinset := by
    intro id _
    exact List.mem_toFinset.mpr (by_contra fun hFree => hAll ⟨id, hFree⟩)
  have hBytes : ((Finset.range 256).image UInt8.ofNat).card = 256 := by
    rw [Finset.card_image_of_injOn (ofNat_injOn.mono fun n hn => Finset.mem_range.mp hn), Finset.card_range]
  have hCard := Finset.card_le_card hEvery
  omega

end Search

section Spawning

variable {npcs npcs' : List Npc} {make : UInt8 → Npc}

theorem Distinct.push (h : Distinct npcs) {npc : Npc} (hNew : npc.index ∉ indices npcs) (hNot : npc.index ≠ 255) :
    Distinct (npcs ++ [npc]) := by
  have hIndices : indices (npcs ++ [npc]) = indices npcs ++ [npc.index] := by simp [indices]
  constructor
  · rw [hIndices]
    exact List.nodup_append_comm.mp (List.nodup_cons.mpr ⟨hNew, h.nodup⟩)
  · simp [hIndices, h.free, hNot.symm]

theorem Distinct.sublist (h : Distinct npcs) (hLess : npcs'.Sublist npcs) : Distinct npcs' :=
  ⟨h.nodup.sublist (hLess.map _), fun hTaken => h.free ((hLess.map _).subset hTaken)⟩

theorem Distinct.die (h : Distinct npcs) (i : Nat) : Distinct (die npcs i) := by
  unfold MapFiles.die
  split
  · exact h.sublist (List.eraseIdx_sublist npcs i)
  · exact h

/-- The loop ends, and what it adds is told apart. -/
theorem Distinct.spawnNpcs (h : Distinct npcs) (hMake : ∀ index, (make index).index = index) (amount : Nat) :
    ∃ npcs', spawnNpcs make amount npcs = some npcs' ∧ Distinct npcs' := by
  induction amount generalizing npcs with
  | zero => exact ⟨npcs, rfl, h⟩
  | succ amount ih =>
      obtain ⟨index, hIndex⟩ := generateNPCIndex_isSome ⟨255, h.free⟩
      rw [MapFiles.spawnNpcs, hIndex]
      by_cases hLast : 250 < index
      · exact ⟨npcs, by simp [hLast], h⟩
      · have hNew : (make index).index ∉ indices npcs := by
          rw [hMake]
          exact searchFrom_unused hIndex
        have hNot : (make index).index ≠ 255 := by
          rw [hMake]
          rintro rfl
          exact hLast (by decide)
        obtain ⟨npcs', hRest, hDistinct⟩ := ih (h.push hNew hNot)
        exact ⟨npcs', by simpa [hLast] using hRest, hDistinct⟩

end Spawning

section Loading

variable {world : World Npc C A W} {file : Bytes}

/-- The NPCs that have been read are numbered, and `index` is the next number. -/
structure Numbered (s : Reading Npc C A W) : Prop where
  next : s.index = s.map.npcs.length
  indices : indices s.map.npcs = (List.range s.map.npcs.length).map UInt8.ofNat

instance : Steady (Numbered (C := C) (A := A) (W := W)) := ⟨fun h _ => ⟨h.next, h.indices⟩⟩

theorem Numbered.same {s s' : Reading Npc C A W} (h : Numbered s) (hNpcs : s'.map.npcs = s.map.npcs)
    (hIndex : s'.index = s.index) : Numbered s' := by
  constructor
  · rw [hIndex, hNpcs, h.next]
  · rw [hNpcs, h.indices]

theorem numbered_change {f : Map Npc C A W → Map Npc C A W} (h : ∀ map, (f map).npcs = map.npcs) :
    Keeps Numbered (change f) :=
  .modify fun s hs => hs.same (h s.map) rfl

theorem ofInt_natCast (n : Nat) : UInt8.ofInt n = UInt8.ofNat n := by
  apply UInt8.toNat_inj.mp
  simp [UInt8.ofInt]
  omega

theorem numbered_newNpc {spawn : Int → NpcSpawn} (hSpawn : ∀ index, (spawn index).index = index) :
    Keeps Numbered (newNpc world.withNpcs spawn) := by
  refine Triple.read fun s hs => .branch (fun _ => .modify ?_) fun _ => .ret fun s' hSame => hSame ▸ hs
  intro s' hSame
  rw [hSame]
  have hIndex : (Npc.of (spawn s.index) false).index = UInt8.ofNat s.map.npcs.length := by
    rw [Npc.of, hSpawn, hs.next, ofInt_natCast]
  constructor
  · simp [hs.next]
  · have hNpcs : indices (s.map.npcs ++ [Npc.of (spawn s.index) false]) =
        indices s.map.npcs ++ [UInt8.ofNat s.map.npcs.length] := by simp [indices, hIndex]
    rw [World.withNpcs, hNpcs, hs.indices]
    simp [List.range_succ]

theorem numbered_placeSpawn (key : Int) (record : UInt32 → ChestSpawns.SpawnRecord) :
    Keeps Numbered (placeSpawn world.withNpcs key record) := by
  refine .read fun s => .bind (.modify fun s hs => ?_) fun _ => numbered_change fun _ => rfl
  exact hs.same rfl rfl

/-- Every piece of the file but that of the NPCs leaves them as they are. -/
theorem numbered_readFile : Keeps Numbered (readFile world.withNpcs file) := by
  have hRid : Keeps Numbered (readRid (N := Npc) (C := C) (A := A) (W := W) file) :=
    keeps_readRid fun _ => numbered_change fun _ => rfl
  have hHeader : Keeps Numbered (readHeader (N := Npc) (C := C) (A := A) (W := W) file) :=
    keeps_readHeader fun _ _ => numbered_change fun _ => rfl
  have hSize : Keeps Numbered (readSize (N := Npc) (C := C) (A := A) (W := W) file) :=
    .bind (keeps_seek _) fun _ => .bind (keeps_read _) fun _ => numbered_change fun _ => rfl
  exact .bind hRid fun _ => .bind hHeader fun _ => .bind hSize fun _ =>
    keeps_behindSize (fun _ _ _ => numbered_change fun _ => rfl) (fun _ _ _ => numbered_change fun _ => rfl)
      (fun _ _ _ => numbered_change fun _ => rfl) (fun _ => numbered_newNpc) numbered_placeSpawn
      (numbered_change fun _ => rfl)

theorem Numbered.distinct {s : Reading Npc C A W} (h : Numbered s) (hFew : s.map.npcs.length ≤ 255) :
    Distinct s.map.npcs := by
  have hBytes : ∀ n ∈ List.range s.map.npcs.length, n < 255 := by
    intro n hn
    have hLess := List.mem_range.mp hn
    omega
  constructor
  · rw [h.indices]
    apply List.Nodup.map_on _ List.nodup_range
    intro a ha b hb
    exact ofNat_injOn (Nat.lt_succ_of_lt (hBytes a ha)) (Nat.lt_succ_of_lt (hBytes b hb))
  · rw [h.indices]
    intro hTaken
    obtain ⟨n, hn, hLast⟩ := List.mem_map.mp hTaken
    have hSame : n = 255 := ofNat_injOn (Nat.lt_succ_of_lt (hBytes n hn)) (by decide) hLast
    exact absurd (hBytes n hn) (by omega)

/-- The NPCs of a map that is loaded are those before or those that are read, also when the file breaks off. -/
theorem load_cases (world : World Npc C A W) (map : Map Npc C A W) :
    (map.load world).2.npcs = map.npcs ∨ ∃ file, (map.load world).2.npcs =
      (final (readFile world file) ⟨{ map with hasTimedSpikes := false }, 0, 0, 0⟩).map.npcs := by
  unfold Map.load
  split
  · exact .inl rfl
  · split
    · exact .inl rfl
    case h_2 file _ =>
      refine .inr ⟨file, ?_⟩
      split
      case h_1 hResult => rw [final_of_ok hResult]
      case h_2 hResult => rw [final_of_error hResult]

/-- A map that has no NPCs is loaded. -/
theorem load_distinct {map : Map Npc C A W} (hNone : map.npcs = []) (hFew : Within (map.load world.withNpcs).2) :
    Distinct (map.load world.withNpcs).2.npcs := by
  unfold Within at hFew
  obtain hSame | ⟨file, hRead⟩ := load_cases world.withNpcs map
  · rw [hSame, hNone]
    exact ⟨List.nodup_nil, List.not_mem_nil⟩
  · rw [hRead] at hFew ⊢
    have hStart : Numbered ⟨{ map with hasTimedSpikes := false }, 0, 0, 0⟩ :=
      ⟨by simp [hNone], by simp [indices, hNone]⟩
    exact (numbered_readFile.final hStart).distinct hFew

end Loading

/-- The index that has been found is that of the NPC. -/
theorem index_of (id : Int) (x y speed : Nat) (direction : Int) (index : UInt8) :
    (Npc.of ⟨id, x, y, speed, direction, index.toNat⟩ true).index = index := by
  simp [Npc.of, ofInt_natCast]

section Runs

variable {world : World Npc C A W} {map map' : Map Npc C A W}

theorem construct_distinct (hFew : Within (map.construct world)) : Distinct (map.construct world).npcs :=
  load_distinct rfl hFew

theorem reload_cases (world : World Npc C A W) (map : Map Npc C A W) :
    (map.reload world).2.npcs = map.npcs ∨ (map.reload world).2.npcs = (map.unload.load world).2.npcs := by
  unfold Map.reload
  split
  · exact .inl rfl
  · split
    · exact .inl rfl
    · split
      · exact .inl rfl
      · dsimp only
        split <;> exact .inr rfl

theorem reload_distinct (h : Distinct map.npcs) (hFew : Within (map.reload world.withNpcs).2) :
    Distinct (map.reload world.withNpcs).2.npcs := by
  unfold Within at hFew
  obtain hSame | hLoad := reload_cases world.withNpcs map
  · rw [hSame]
    exact h
  · rw [hLoad] at hFew ⊢
    exact load_distinct rfl hFew

theorem step_distinct (h : Distinct map.npcs) {event : Event C A W} (hFew : Within map')
    (hStep : step map event = some map') : Distinct map'.npcs := by
  cases event with
  | reload world =>
      obtain rfl := Option.some.inj hStep
      exact reload_distinct h hFew
  | spawnNPC dataSize id amount speed direction x y =>
      rw [step] at hStep
      split at hStep
      · obtain rfl := Option.some.inj hStep
        exact h
      · obtain ⟨npcs, hSpawn, hMap⟩ := Option.bind_eq_some_iff.mp hStep
        obtain ⟨npcs', hSpawn', hDistinct⟩ := h.spawnNpcs (index_of _ _ _ _ _) amount.toNat
        obtain rfl := Option.some.inj (hSpawn'.symm.trans hSpawn)
        obtain rfl := Option.some.inj hMap
        exact hDistinct
  | die i =>
      obtain rfl := Option.some.inj hStep
      exact h.die i

theorem step_isSome (h : Distinct map.npcs) (event : Event C A W) : (step map event).isSome := by
  cases event with
  | reload world => rfl
  | spawnNPC dataSize id amount speed direction x y =>
      obtain ⟨npcs, hSpawn, -⟩ := h.spawnNpcs (index_of (Characters.toShort id) x y speed direction) amount.toNat
      rw [step, hSpawn]
      split <;> rfl
  | die i => rfl

/-- The search ends with a free index where there is one, and the NPCs of a map are told apart by their
indices as long as there are not more than 255. -/
theorem npcIndices_distinct :
    (∀ npcs : List Npc, (indices npcs).toFinset.card ≤ 255 →
      ∃ index, (∀ more, searchFrom npcs (256 + more) 1 = some index) ∧ generateNPCIndex npcs = some index ∧
        index ∉ indices npcs) ∧
    ∀ {C A W : Type} (world : World Npc C A W) (map : Map Npc C A W) (events : List (Event C A W)),
      Always step Within (map.construct world) events →
        Always step (fun map => (indices map.npcs).Nodup ∧ ∀ event, (step map event).isSome)
          (map.construct world) events := by
  constructor
  · intro npcs hCard
    obtain ⟨index, hIndex⟩ := generateNPCIndex_isSome (exists_free hCard)
    exact ⟨index, searchFrom_more hIndex, hIndex, searchFrom_unused hIndex⟩
  · intro C A W world map events hWithin
    have hStart : Distinct (map.construct world).npcs :=
      construct_distinct (hWithin [] _ List.nil_prefix rfl)
    have hAll : Always step (fun map => Distinct map.npcs) (map.construct world) events :=
      Always.carry (fun _ _ _ h hFew hStep => step_distinct h hFew hStep) hStart hWithin
    exact hAll.mono fun _ h => ⟨h.nodup, step_isSome h⟩

/-- There is no file, and two temporary NPCs come onto the map. -/
def noFiles : World Npc Unit Unit Unit where
  files _ := none
  limits := ⟨0, 0, isInt_zero, 0, false⟩
  now := 0
  random _ := 0
  newNpc _ spawn := .of spawn false
  loadArena _ := none
  loadWedding _ := none

def emptyMap : Map Npc Unit Unit Unit where
  id := 1
  rid := [0, 0, 0, 0]
  pk := false
  effect := 0
  filesize := 0
  width := 0
  height := 0
  scroll := false
  relogX := 0
  relogY := 0
  loaded := false
  hasTimedSpikes := false
  characters := []
  npcs := []
  chests := []
  tiles := []
  arena := none
  wedding := none

theorem npcIndices_distinct_spawned :
    (∃ index, (∀ more, searchFrom [.of ⟨1, 0, 0, 0, 0, 1⟩ false] (256 + more) 1 = some index) ∧
      generateNPCIndex [.of ⟨1, 0, 0, 0, 0, 1⟩ false] = some index ∧
        index ∉ indices [.of ⟨1, 0, 0, 0, 0, 1⟩ false]) ∧
    Always step (fun map => (indices map.npcs).Nodup ∧ ∀ event, (step map event).isSome)
      (emptyMap.construct noFiles) [.spawnNPC 5 1 2 0 0 3 3, .die 0, .spawnNPC 5 1 1 0 0 3 3] :=
  ⟨npcIndices_distinct.1 _ (by decide), npcIndices_distinct.2 noFiles emptyMap _ (by decide)⟩

end Runs

end Etheos.MapFiles
