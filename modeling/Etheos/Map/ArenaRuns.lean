import Etheos.Map.Occupancy

/-! The steps that concern arenas, and the runs of them. -/
namespace Etheos.Arenas

open General Entries Maps

section Steps

variable {s s' : State} {rules : Rules}

theorem Settling.occupancy (h : Settled s) : Occupancy s where
  counted := h.counted
  living c hc a ha := by
    obtain ⟨hNext, hArena⟩ := h.stands c hc List.not_mem_nil
    rcases ha with hIn | hWaiting
    · obtain ⟨arena, hFound, -⟩ := hArena a hIn
      rw [hFound]
      rfl
    · rw [hNext] at hWaiting
      cases hWaiting

/-- A change of the characters that keeps where they are and what arenas they are in. -/
theorem Core.setChars (h : Core s) {chars : Nat → Character} (hArena : ∀ c, (chars c).arena = (s.chars c).arena)
    (hMap : ∀ c, (chars c).map = (s.chars c).map) (hMapid : ∀ c, (chars c).mapid = (s.chars c).mapid) :
    Core { s with chars := chars } where
  nodup := h.nodup
  counted a arena ha := by
    rw [h.counted a arena ha]
    simp [State.occupying, hArena]
  listed m c hc := by
    rw [hMap]
    exact h.listed m c hc
  here c hc := by
    rw [hMap, hMapid]
    exact h.here c hc
  owned := h.owned
  numbered := h.numbered
  made := h.made

/-- Who is on a map that is listed there. -/
theorem Core.there (h : Core s) {m c : Nat} (hc : c ∈ (s.maps m).characters) : (s.maps m).isThere := by
  obtain ⟨hOnline, hMap⟩ := h.listed m c hc
  obtain ⟨hMapid, hThere⟩ := h.here c hOnline
  rw [hMap] at hMapid
  rw [Option.some.inj hMapid]
  exact hThere

theorem mem_picked {arena : Arena} {p : Nat × ArenaSpawn} (h : p ∈ s.picked arena) :
    p.1 ∈ (s.maps arena.map).characters := by
  obtain ⟨spawn, -, hFind⟩ := List.mem_filterMap.mp h
  obtain ⟨c, hFound, rfl⟩ := Option.map_eq_some_iff.mp hFind
  exact List.mem_of_find?_eq_some hFound

/-- The picked ones wait for the arena. -/
theorem await_settling (h : Settled s) {a : Nat} {arena : Arena} (hArena : s.arenas a = some arena)
    (waiting : List Nat) : Settling (· = arena.map) waiting (s.await a waiting) := by
  have hSame (c : Nat) : ((s.await a waiting).chars c).arena = (s.chars c).arena ∧
      ((s.await a waiting).chars c).map = (s.chars c).map ∧
      ((s.await a waiting).chars c).mapid = (s.chars c).mapid := by
    unfold State.await
    dsimp only
    split
    · exact ⟨rfl, rfl, rfl⟩
    · exact ⟨rfl, rfl, rfl⟩
  refine ⟨h.toCore.setChars (fun c => (hSame c).1) (fun c => (hSame c).2.1) fun c => (hSame c).2.2,
    fun c hc hNot => ?_, fun c hc b hb => ?_⟩
  · have hUntouched : Untouched s (s.await a waiting) c := ⟨if_neg hNot, fun _ => rfl⟩
    exact (h.stands c hc List.not_mem_nil).untouched (fun _ => rfl) hUntouched
  · have hChar : (s.await a waiting).chars c = { s.chars c with nextArena := some a } := if_pos hc
    rw [hChar] at hb
    obtain rfl := Option.some.inj hb
    exact ⟨arena, hArena, rfl⟩

theorem settled_spawn {a : Nat} {force : Bool} (h : Settled s) (hSpawn : spawn rules s a force = some s') :
    Settled s' := by
  obtain ⟨arena, hArena, hRest⟩ := Option.bind_eq_some_iff.mp hSpawn
  split at hRest
  · obtain rfl := Option.some.inj hRest
    exact h
  · split at hRest
    · obtain rfl := Option.some.inj hRest
      exact h
    · have hAwait := await_settling h hArena ((s.picked arena).map Prod.fst)
      let warps : List Warp := (s.picked arena).map fun p => ⟨p.1, arena.map, p.2.dx, p.2.dy⟩
      have hWaiting : Settling (· = arena.map) (warps.map Warp.character)
          (s.await a ((s.picked arena).map Prod.fst)) := by
        rw [List.map_map]
        exact hAwait
      refine hWaiting.warpEach (fun w hw => ?_) hRest
      obtain ⟨p, hp, rfl⟩ := List.mem_map.mp hw
      exact ⟨rfl, h.toCore.there (mem_picked hp)⟩

theorem settled_attack {attacker : Nat} {direction : Direction} (h : Settled s) (hOnline : attacker ∈ s.online)
    (hAttack : attack rules s attacker direction = some s') : Settled s' := by
  unfold attack at hAttack
  dsimp only at hAttack
  split at hAttack
  · obtain rfl := Option.some.inj hAttack
    exact h
  · obtain ⟨arena, -, hRest⟩ := Option.bind_eq_some_iff.mp hAttack
    split at hRest
    · obtain rfl := Option.some.inj hRest
      exact h
    case h_2 c hFound =>
      have hListed := List.mem_of_find?_eq_some hFound
      generalize hBeaten : (if arena.occupants = 2 then [c, attacker] else [c]) = beaten at hRest
      have hAll : ∀ d ∈ beaten, d ∈ s.online := by
        have hc := (h.listed _ c hListed).1
        rw [← hBeaten]
        split
        · simp [hc, hOnline]
        · simp [hc]
      refine Settling.warpEach (m := arena.map) ?_ (fun w hw => ?_) hRest
      · rw [List.map_map]
        refine Settling.pend h fun d hd => hAll d ?_
        simpa using hd
      · obtain ⟨d, -, rfl⟩ := List.mem_map.mp hw
        exact ⟨rfl, h.toCore.there hListed⟩

theorem settled_logout {c : Nat} (h : Settled s) (hLogout : logout rules s c = some s') : Settled s' := by
  unfold logout at hLogout
  split at hLogout
  · obtain rfl := Option.some.inj hLogout
    exact h
  case isFalse hOnline =>
    obtain ⟨quiet, hRules, hRest⟩ := Option.bind_eq_some_iff.mp hLogout
    obtain ⟨left, hLeave, hLast⟩ := Option.map_eq_some_iff.mp hRest
    obtain ⟨arenas, rfl, hRecount⟩ := leaveArena_cases hLeave
    obtain ⟨hCore, hWarped⟩ := rules_warped h.toCore hRules
    have hQuiet : Settled quiet := h.warped hCore hWarped
    have hc : c ∈ quiet.online := hWarped.online ▸ not_not.mp hOnline
    obtain ⟨-, hThere⟩ := hCore.here c hc
    dsimp only at hLast
    rw [if_pos hThere] at hLast
    -- the state as it would be if the pointer was cleared
    have hCleared : Core ({ quiet with arenas := arenas }.setChar c { quiet.chars c with arena := none }) :=
      hCore.setPointers hc rfl rfl hRecount
    have hLeft := hCleared.leave (quiet.chars c).mapid c
    have hNotMem := not_mem_leave hCore hc
    rw [← hLast]
    refine ⟨⟨hCore.nodup.filter _, fun a arena ha => ?_, fun m d hd => ?_, fun d hd => ?_, hLeft.owned,
      hLeft.numbered, hLeft.made⟩, fun d hd _ => ?_, nofun⟩
    · rw [hLeft.counted a arena ha, State.occupying, State.occupying, List.countP_filter]
      refine congrArg Nat.cast (List.countP_congr fun d _ => ?_)
      by_cases hd : d = c
      · simp [State.leave, State.setChar_chars, hd]
      · simp [State.leave, State.setChar_chars, hd]
    · obtain ⟨hOld, -⟩ := mem_leave (s := { quiet with arenas := arenas }) hd
      have hNe : d ≠ c := fun hSame => hNotMem m (hSame ▸ hd)
      exact ⟨List.mem_filter.mpr ⟨(hCore.listed m d hOld).1, decide_eq_true hNe⟩, (hCore.listed m d hOld).2⟩
    · obtain ⟨hMap, hIsThere⟩ := hCore.here d (List.mem_of_mem_filter hd)
      exact ⟨hMap, (leave_isThere { quiet with arenas := arenas } _ _ _).trans hIsThere⟩
    · obtain ⟨hMem, hNe⟩ := List.mem_filter.mp hd
      have hStands := hQuiet.stands d hMem List.not_mem_nil
      exact hStands.untouched hRecount.same
        ⟨rfl, count_leave { quiet with arenas := arenas } _ (of_decide_eq_true hNe)⟩

end Steps

section Loading

variable {s s' : State} {rules : Rules} {m : Nat} {update : List Nat}

/-- Who is in the arena of a map. -/
def InArena (s : State) (m c : Nat) : Prop := ∃ a, (s.maps m).arena = some a ∧ (s.chars c).arena = some a

instance (s : State) (m c : Nat) : Decidable (InArena s m c) :=
  decidable_of_iff ((s.maps m).arena.isSome ∧ (s.chars c).arena = (s.maps m).arena) <| by
    constructor
    · rintro ⟨hSome, hSame⟩
      obtain ⟨a, ha⟩ := Option.isSome_iff_exists.mp hSome
      exact ⟨a, ha, hSame.trans ha⟩
    · rintro ⟨a, ha, hIn⟩
      exact ⟨ha ▸ rfl, hIn.trans ha.symm⟩

/-- `LoadArena` finds everybody who is in the arena, and nobody twice. -/
structure Found (s : State) (m : Nat) (update : List Nat) : Prop where
  all : ∀ c, c ∈ update ↔ c ∈ s.online ∧ InArena s m c
  nodup : update.Nodup
  once : ∀ c ∈ update, (s.maps m).characters.count c = 1

theorem updateCharacters_found (h : Settled s) (hUpdate : s.updateCharacters m = some update) :
    Found s m update := by
  unfold State.updateCharacters at hUpdate
  split at hUpdate
  case h_1 hNone =>
    obtain rfl := Option.some.inj hUpdate
    refine ⟨fun c => ?_, List.nodup_nil, nofun⟩
    simp [InArena, hNone]
  case h_2 a ha =>
    obtain ⟨arena, hArena, rfl⟩ := Option.map_eq_some_iff.mp hUpdate
    obtain ⟨owned, hOwned, rfl⟩ := h.owned m a ha
    obtain rfl : arena = owned := Option.some.inj (hArena.symm.trans hOwned)
    have hOnce : ∀ c ∈ s.online, (s.chars c).arena = some a → (s.maps arena.map).characters.count c = 1 := by
      intro c hc hIn
      obtain ⟨found, hFound, hCount⟩ := (h.stands c hc List.not_mem_nil).2 a hIn
      rw [hArena] at hFound
      rwa [← Option.some.inj hFound] at hCount
    have hAll : ∀ c, c ∈ (s.maps arena.map).characters.filter (fun c => (s.chars c).arena = some a) ↔
        c ∈ s.online ∧ (s.chars c).arena = some a := by
      intro c
      rw [List.mem_filter, decide_eq_true_eq]
      constructor
      · rintro ⟨hListed, hIn⟩
        exact ⟨(h.listed _ c hListed).1, hIn⟩
      · rintro ⟨hc, hIn⟩
        refine ⟨List.count_pos_iff.mp ?_, hIn⟩
        rw [hOnce c hc hIn]
        exact Nat.one_pos
    refine ⟨fun c => (hAll c).trans ?_, List.nodup_iff_count_le_one.mpr fun c => ?_, fun c hc => ?_⟩
    · simp [InArena, ha]
    · by_cases hc : c ∈ (s.maps arena.map).characters.filter fun c => (s.chars c).arena = some a
      · obtain ⟨hOnline, hIn⟩ := (hAll c).mp hc
        rw [← hOnce c hOnline hIn]
        exact List.filter_sublist.count_le c
      · rw [List.count_eq_zero.mpr hc]
        exact Nat.zero_le 1
    · obtain ⟨hOnline, hIn⟩ := (hAll c).mp hc
      exact hOnce c hOnline hIn

/-- An arena is gone, and those who were in it still point to it. -/
structure Cleared (s s' : State) (m : Nat) : Prop where
  core : Core s'
  online : s'.online = s.online
  chars : s'.chars = s.chars
  fresh : s'.fresh = s.fresh
  size : s'.size = s.size
  config : s'.config = s.config
  characters : ∀ n, (s'.maps n).characters = (s.maps n).characters
  noArena : (s'.maps m).arena = none
  others : ∀ a, (s.maps m).arena ≠ some a → s'.arenas a = s.arenas a
  gone : ∀ a, (s.maps m).arena = some a → s'.arenas a = none

theorem deleteArena_cleared (h : Core s) (m : Nat) : Cleared s (s.deleteArena m) m := by
  unfold State.deleteArena
  split
  case h_1 hNone =>
    exact ⟨h, rfl, rfl, rfl, rfl, rfl, fun _ => rfl, hNone, fun _ _ => rfl, fun a ha => by rw [hNone] at ha; cases ha⟩
  case h_2 a ha =>
    obtain ⟨arena, hArena, hOwn⟩ := h.owned m a ha
    have hMaps (n : Nat) : ((s.setArena a none).setMap m { s.maps m with arena := none }).maps n =
        if n = m then { s.maps m with arena := none } else s.maps n := State.setMap_maps ..
    have hArenas (b : Nat) : ((s.setArena a none).setMap m { s.maps m with arena := none }).arenas b =
        if b = a then none else s.arenas b := State.setArena_arenas ..
    have hListed (n : Nat) : (((s.setArena a none).setMap m { s.maps m with arena := none }).maps n).characters =
        (s.maps n).characters := by
      rw [hMaps]
      split
      case isTrue hn => rw [hn]
      case isFalse => rfl
    have hIsThere (n : Nat) : (((s.setArena a none).setMap m { s.maps m with arena := none }).maps n).isThere =
        (s.maps n).isThere := by
      rw [hMaps]
      split
      case isTrue hn => rw [hn]
      case isFalse => rfl
    refine ⟨⟨h.nodup, fun b found hb => ?_, fun n c hc => ?_, fun c hc => ?_, fun n b hb => ?_, fun b hb => ?_,
      fun n hn => ?_⟩, rfl, rfl, rfl, rfl, rfl, hListed, by rw [hMaps, if_pos rfl], fun b hb => ?_, fun b hb => ?_⟩
    · rw [hArenas] at hb
      split at hb
      · cases hb
      · exact h.counted b found hb
    · rw [hListed] at hc
      exact h.listed n c hc
    · refine ⟨(h.here c hc).1, ?_⟩
      rw [hIsThere]
      exact (h.here c hc).2
    · rw [hMaps] at hb
      split at hb
      · cases hb
      case isFalse hn =>
        obtain ⟨found, hFound, hMap⟩ := h.owned n b hb
        refine ⟨found, ?_, hMap⟩
        rw [hArenas, if_neg ?_, hFound]
        rintro rfl
        rw [hArena] at hFound
        rw [← Option.some.inj hFound, hOwn] at hMap
        exact hn hMap.symm
    · rw [hArenas, h.numbered b hb, ite_self]
    · rw [hIsThere] at hn
      exact h.made n hn
    · rw [hArenas, if_neg ?_]
      rintro rfl
      exact hb ha
    · rw [hArenas, if_pos (Option.some.inj (hb.symm.trans ha))]

theorem Cleared.stands (hCleared : Cleared s s' m) (hFound : Found s m update) (h : Settled s) {c : Nat}
    (hc : c ∈ s.online) (hNot : c ∉ update) : Stands s' c := by
  obtain ⟨hNext, hArena⟩ := h.stands c hc List.not_mem_nil
  rw [Stands, hCleared.chars]
  refine ⟨hNext, fun a ha => ?_⟩
  obtain ⟨arena, hThere, hCount⟩ := hArena a ha
  have hOther : (s.maps m).arena ≠ some a := fun hMap => hNot ((hFound.all c).mpr ⟨hc, a, hMap, ha⟩)
  exact ⟨arena, (hCleared.others a hOther).trans hThere, by rw [hCleared.characters, hCount]⟩

/-- Those who were in the old arena are in the new one. -/
theorem carry_settled (h : Settled s) (hFound : Found s m update) (hCleared : Cleared s s' m) {arena : Arena}
    (hMap : arena.map = m) (hOccupants : arena.occupants = update.length) :
    Settled ((s'.newArena m arena).carry s.fresh update) := by
  have hArenas (b : Nat) : ((s'.newArena m arena).carry s.fresh update).arenas b =
      if b = s.fresh then some arena else s'.arenas b := by
    rw [← hCleared.fresh]
    exact State.setArena_arenas ..
  have hMaps (n : Nat) : ((s'.newArena m arena).carry s.fresh update).maps n =
      if n = m then { s'.maps m with arena := some s.fresh } else s'.maps n := by
    rw [← hCleared.fresh]
    exact State.setMap_maps ..
  have hChars (c : Nat) : ((s'.newArena m arena).carry s.fresh update).chars c =
      if c ∈ update then { s.chars c with arena := some s.fresh } else s.chars c := by
    rw [← hCleared.chars]
    rfl
  generalize hNew : (s'.newArena m arena).carry s.fresh update = new at hArenas hMaps hChars
  have hOnline : new.online = s.online := by
    rw [← hNew]
    exact hCleared.online
  have hFresh : new.fresh = s.fresh + 1 := by
    rw [← hNew, ← hCleared.fresh]
    rfl
  have hSize : new.size = s'.size := by
    rw [← hNew]
    rfl
  have hListed (n : Nat) : (new.maps n).characters = (s.maps n).characters := by
    rw [hMaps, ← hCleared.characters]
    split
    case isTrue hn => rw [hn]
    case isFalse => rfl
  have hIsThere (n : Nat) : (new.maps n).isThere = (s'.maps n).isThere := by
    rw [hMaps]
    split
    case isTrue hn => rw [hn]
    case isFalse => rfl
  have hPlace (c : Nat) : (new.chars c).map = (s.chars c).map ∧ (new.chars c).mapid = (s.chars c).mapid ∧
      (new.chars c).nextArena = (s.chars c).nextArena := by
    rw [hChars]
    split
    · exact ⟨rfl, rfl, rfl⟩
    · exact ⟨rfl, rfl, rfl⟩
  have hOld : ∀ b found, s'.arenas b = some found → b ≠ s.fresh := by
    rintro b found hb rfl
    rw [hCleared.core.numbered _ (Nat.le_of_eq hCleared.fresh)] at hb
    cases hb
  have hIn : ∀ c ∈ s.online, (new.chars c).arena = some s.fresh ↔ c ∈ update := by
    intro c hc
    rw [hChars]
    split
    case isTrue hMem => exact iff_of_true rfl hMem
    case isFalse hNot =>
      refine iff_of_false (fun ha => ?_) hNot
      obtain ⟨found, hThere, -⟩ := (hCleared.stands hFound h hc hNot).2 s.fresh (by rw [hCleared.chars]; exact ha)
      exact hOld _ found hThere rfl
  have hOther : ∀ c ∈ s.online, ∀ b found, s'.arenas b = some found →
      ((new.chars c).arena = some b ↔ (s.chars c).arena = some b) := by
    intro c hc b found hb
    rw [hChars]
    split
    case isTrue hMem =>
      obtain ⟨-, a, ha, hWas⟩ := (hFound.all c).mp hMem
      refine iff_of_false (fun hSame => hOld b found hb (Option.some.inj hSame).symm) fun hSame => ?_
      rw [hWas] at hSame
      obtain rfl := Option.some.inj hSame
      rw [hCleared.gone a ha] at hb
      cases hb
    case isFalse => exact Iff.rfl
  refine ⟨⟨?_, fun b found hb => ?_, fun n c hc => ?_, fun c hc => ?_, fun n b hb => ?_, fun b hb => ?_,
    fun n hn => ?_⟩, fun c hc _ => ?_, nofun⟩
  · rw [hOnline]
    exact h.nodup
  · rw [hArenas] at hb
    split at hb
    case isTrue hFreshArena =>
      obtain rfl := Option.some.inj hb
      have hCount := countP_mem h.nodup hFound.nodup fun c hc => ((hFound.all c).mp hc).1
      rw [hOccupants, ← hCount, State.occupying, hOnline, hFreshArena]
      exact congrArg Nat.cast (List.countP_congr fun c hc => by simpa using (hIn c hc).symm)
    case isFalse =>
      rw [hCleared.core.counted b found hb, State.occupying, State.occupying, hOnline, hCleared.online,
        hCleared.chars]
      exact congrArg Nat.cast (List.countP_congr fun c hc => by simpa using (hOther c hc b found hb).symm)
  · rw [hListed] at hc
    rw [hOnline, (hPlace c).1]
    exact h.listed n c hc
  · rw [hOnline] at hc
    rw [(hPlace c).1, (hPlace c).2.1, hIsThere, ← hCleared.chars]
    exact hCleared.core.here c (by rwa [hCleared.online])
  · rw [hMaps] at hb
    split at hb
    case isTrue hn =>
      obtain rfl := Option.some.inj hb
      exact ⟨arena, by rw [hArenas, if_pos rfl], hMap.trans hn.symm⟩
    case isFalse =>
      obtain ⟨found, hThere, hOwn⟩ := hCleared.core.owned n b hb
      exact ⟨found, by rw [hArenas, if_neg (hOld b found hThere), hThere], hOwn⟩
  · rw [hFresh] at hb
    rw [hArenas, if_neg (by omega)]
    exact hCleared.core.numbered b (by rw [hCleared.fresh]; omega)
  · rw [hIsThere] at hn
    rw [hSize]
    exact hCleared.core.made n hn
  · rw [hOnline] at hc
    refine ⟨(hPlace c).2.2.trans (h.stands c hc List.not_mem_nil).1, fun b hb => ?_⟩
    by_cases hMem : c ∈ update
    · rw [hChars, if_pos hMem] at hb
      obtain rfl := Option.some.inj hb
      exact ⟨arena, by rw [hArenas, if_pos rfl], by rw [hListed, hMap, hFound.once c hMem]⟩
    · have hStands := hCleared.stands hFound h hc hMem
      rw [hChars, if_neg hMem, ← hCleared.chars] at hb
      obtain ⟨found, hThere, hCount⟩ := hStands.2 b hb
      refine ⟨found, by rw [hArenas, if_neg (hOld b found hThere), hThere], ?_⟩
      rw [hListed, ← hCleared.characters, hCount]

/-- Their arena is gone. -/
def Lost (s : State) (c : Nat) : Prop := ∀ a, (s.chars c).arena = some a → s.arenas a = none

theorem evict_settled (h : Settling (fun _ => False) update s) (hLost : ∀ c ∈ update, c ∈ s.online ∧ Lost s c)
    (hEvict : evict rules s update = some s') : Settled s' := by
  induction update generalizing s with
  | nil =>
      obtain rfl := Option.some.inj hEvict
      exact h
  | cons c rest ih =>
      obtain ⟨⟨hc, hArena⟩, hRest⟩ := List.forall_mem_cons.mp hLost
      have hRecount : Recount s (s.chars c).arena none s.arenas := by
        refine ⟨fun _ => rfl, fun a found found' ha ha' => ?_⟩
        rw [ha] at ha'
        obtain rfl := Option.some.inj ha'
        have hElsewhere : (s.chars c).arena ≠ some a := by
          intro hHere
          rw [hArena a hHere] at ha
          cases ha
        simp [hElsewhere]
      have hCore : Core (s.setChar c { s.chars c with arena := none }) :=
        h.toCore.setPointers hc rfl rfl hRecount
      have hOthers {d : Nat} (hd : d ≠ c) : Untouched s (s.setChar c { s.chars c with arena := none }) d :=
        ⟨(State.setChar_chars ..).trans (if_neg hd), fun _ => rfl⟩
      have hNext (d : Nat) : ((s.setChar c { s.chars c with arena := none }).chars d).nextArena =
          (s.chars d).nextArena := by
        rw [State.setChar_chars]
        split
        case isTrue hd => rw [hd]
        case isFalse => rfl
      have hSettling : Settling (fun _ => False) (c :: rest) (s.setChar c { s.chars c with arena := none }) := by
        refine ⟨hCore, fun d hd hNot => ?_, fun d hd a ha => ?_⟩
        · exact (h.stands d hd hNot).untouched (fun _ => rfl) (hOthers (List.ne_of_not_mem_cons hNot))
        · rw [hNext] at ha
          exact h.waits d hd a ha
      unfold evict at hEvict
      dsimp only at hEvict
      split at hEvict
      · cases hEvict
      case h_2 m hMap =>
        obtain ⟨next, hWarp, hLast⟩ := Option.bind_eq_some_iff.mp hEvict
        obtain ⟨hMapid, hThere⟩ := hCore.here c hc
        rw [hMap] at hMapid
        rw [← Option.some.inj hMapid] at hThere
        obtain ⟨-, hWarped⟩ := warp_warped hCore hWarp
        refine ih (hSettling.warp (fun _ => False.elim) hThere hWarp) (fun d hd => ?_) hLast
        obtain ⟨hOnline, hGone⟩ := hRest d hd
        refine ⟨by rw [hWarped.online]; exact hOnline, fun a ha => ?_⟩
        rcases hWarped.chars d with hUntouched | hMoved
        · rw [hUntouched.1] at ha
          have hNone : s.arenas a = none := by
            rw [State.setChar_chars] at ha
            split at ha
            · cases ha
            · exact hGone a ha
          have hSame := hWarped.arenas a
          rw [State.setChar_arenas, hNone] at hSame
          exact Option.map_eq_none_iff.mp hSame
        · exact absurd (hSettling.waits d (List.mem_cons_of_mem _ hd) a (hMoved.2 a ha)) (by simp)

/-- An arena that is loaded again carries over those who are in it, or sends them away. -/
theorem settled_loadArena (h : Settled s) (hLoad : loadArena rules s m = some s') : Settled s' := by
  obtain ⟨update, hUpdate, hRest⟩ := Option.bind_eq_some_iff.mp hLoad
  have hFound := updateCharacters_found h hUpdate
  have hCleared := deleteArena_cleared h.toCore m
  dsimp only at hRest
  split at hRest
  case h_1 arena hArena =>
    obtain rfl := Option.some.inj hRest
    obtain ⟨hMap, hOccupants⟩ : arena.map = m ∧ arena.occupants = update.length := by
      unfold ArenaConfig.arena at hArena
      split at hArena
      · obtain rfl := Option.some.inj hArena
        exact ⟨rfl, rfl⟩
      · cases hArena
    exact carry_settled h hFound hCleared hMap hOccupants
  case h_2 =>
    refine evict_settled ⟨hCleared.core, fun c hc hNot => ?_, fun c hc a ha => ?_⟩ (fun c hc => ?_) hRest
    · exact hCleared.stands hFound h (hCleared.online ▸ hc) hNot
    · rw [hCleared.chars, (h.stands c ((hFound.all c).mp hc).1 List.not_mem_nil).1] at ha
      cases ha
    · obtain ⟨hOnline, a, ha, hIn⟩ := (hFound.all c).mp hc
      refine ⟨hCleared.online ▸ hOnline, fun b hb => ?_⟩
      rw [hCleared.chars, hIn] at hb
      rw [← Option.some.inj hb]
      exact hCleared.gone a ha

theorem settled_loadArenas {ms : List Nat} (h : Settled s) (hLoad : loadArenas rules s ms = some s') :
    Settled s' := by
  induction ms generalizing s with
  | nil =>
      obtain rfl := Option.some.inj hLoad
      exact h
  | cons m rest ih =>
      obtain ⟨next, hFirst, hRest⟩ := Option.bind_eq_some_iff.mp hLoad
      exact ih (settled_loadArena h hFirst) hRest

theorem settled_rehash {config : Nat → ArenaConfig} (h : Settled s) (hRehash : rehash config rules s = some s') :
    Settled s' := by
  have hConfig : Settled { s with config := config } :=
    ⟨⟨h.nodup, h.counted, h.listed, h.here, h.owned, h.numbered, h.made⟩, h.stands, nofun⟩
  exact settled_loadArenas hConfig hRehash

end Loading

/-- A step that takes an arena away from under those who are in it, or leaves characters on a map
that is not there. -/
def Strands (s : State) : Event → Prop
  | .reload m changed file => changed = true ∧
      ((∃ c ∈ s.online, InArena s m c) ∨ file = none ∧ ∃ c ∈ s.online, (s.chars c).mapid = m)
  | .login _ m _ _ => ¬(s.maps m).isThere
  | _ => False

instance (s : State) : (event : Event) → Decidable (Strands s event)
  | .reload _ _ _ => inferInstanceAs (Decidable (_ ∧ _))
  | .login _ _ _ _ => inferInstanceAs (Decidable (¬_))
  | .spawn _ _ _ | .attack _ _ _ | .warp _ _ | .logout _ _ | .rehash _ _ | .addMap _ | .walk _ _ _ =>
      inferInstanceAs (Decidable False)

section Runs

variable {s s' : State}

/-- A map that changes without taking anybody along. -/
theorem settled_setMap (h : Settled s) {m size : Nat} {map : GameMap} (hArena : map.arena = none)
    (hCharacters : map.characters = (s.maps m).characters) (hThere : map.isThere → m ≤ size) (hSize : s.size ≤ size)
    (hHere : ∀ c ∈ s.online, (s.chars c).mapid = m → map.isThere) :
    Settled { s.setMap m map with size := size } := by
  have hMaps (n : Nat) : (s.setMap m map).maps n = if n = m then map else s.maps n := State.setMap_maps ..
  have hListed (n : Nat) : ((s.setMap m map).maps n).characters = (s.maps n).characters := by
    rw [hMaps]
    split
    case isTrue hn => rw [hn, hCharacters]
    case isFalse => rfl
  refine ⟨⟨h.nodup, h.counted, fun n c hc => ?_, fun c hc => ?_, fun n a ha => ?_, h.numbered, fun n hn => ?_⟩,
    fun c hc _ => (h.stands c hc List.not_mem_nil).untouched (fun _ => rfl) ⟨rfl, fun n => ?_⟩, nofun⟩
  · exact h.listed n c (hListed n ▸ hc)
  · refine ⟨(h.here c hc).1, (congrArg _ (hMaps _)).trans ?_⟩
    split
    case isTrue hm => exact hHere c hc hm
    case isFalse => exact (h.here c hc).2
  · dsimp only at ha
    rw [hMaps] at ha
    split at ha
    · rw [hArena] at ha
      cases ha
    · exact h.owned n a ha
  · dsimp only at hn
    rw [hMaps] at hn
    split at hn
    case isTrue hm => exact hm ▸ hThere hn
    case isFalse => exact (h.made n hn).trans hSize
  · exact congrArg _ (hListed n)

theorem load_isThere (map : GameMap) (file : MapFile) : (map.load file).isThere = file.isSome := by
  cases file with
  | none => rfl
  | some relog => rfl

theorem load_arena (map : GameMap) (file : MapFile) : (map.load file).arena = map.arena := by
  cases file with
  | none => rfl
  | some relog => rfl

theorem load_characters (map : GameMap) (file : MapFile) : (map.load file).characters = map.characters := by
  cases file with
  | none => rfl
  | some relog => rfl

theorem settled_reload {m : Nat} {file : MapFile} (h : Settled s) (hm : m ≤ s.size)
    (hFree : ¬∃ c ∈ s.online, InArena s m c) (hStay : ¬(file = none ∧ ∃ c ∈ s.online, (s.chars c).mapid = m))
    (hReload : reload s m file = some s') : Settled s' := by
  have hCleared := deleteArena_cleared h.toCore m
  have hFound : Found s m [] := ⟨fun c => ⟨nofun, fun hIn => absurd ⟨c, hIn⟩ hFree⟩, List.nodup_nil, nofun⟩
  have hUnloaded : Settled (s.deleteArena m) := by
    refine ⟨hCleared.core, fun c hc _ => ?_, nofun⟩
    exact hCleared.stands hFound h (hCleared.online ▸ hc) List.not_mem_nil
  have hLoaded : Settled ((s.deleteArena m).setMap m (((s.deleteArena m).maps m).load file)) := by
    refine @settled_setMap _ hUnloaded _ (s.deleteArena m).size _ ?_ (load_characters ..) (fun _ => ?_)
      (Nat.le_refl _) fun c hc hMapid => ?_
    · rw [load_arena, hCleared.noArena]
    · rw [hCleared.size]
      exact hm
    · rw [load_isThere]
      cases file with
      | none =>
          rw [hCleared.online] at hc
          rw [hCleared.chars] at hMapid
          exact absurd ⟨rfl, c, hc, hMapid⟩ hStay
      | some relog => rfl
  unfold reload at hReload
  dsimp only at hReload
  split at hReload
  · obtain rfl := Option.some.inj hReload
    exact hLoaded
  · exact settled_loadArena hLoaded hReload

theorem settled_addMap {file : MapFile} (h : Settled s) (hAdd : addMap s file = some s') : Settled s' := by
  have hBehind : ∀ c ∈ s.online, (s.chars c).mapid ≠ s.size + 1 := by
    intro c hc hMapid
    have hMade := h.made _ (h.here c hc).2
    omega
  have hEmpty : (s.maps (s.size + 1)).characters = [] := by
    refine List.eq_nil_iff_forall_not_mem.mpr fun c hc => ?_
    have hMade := h.made _ (h.toCore.there hc)
    omega
  refine settled_loadArena (settled_setMap h ?_ ?_ (fun _ => Nat.le_refl _) (Nat.le_succ _)
    fun c hc hMapid => ?_) hAdd
  · exact load_arena noMap file
  · rw [load_characters, hEmpty]
    rfl
  · exact absurd hMapid (hBehind c hc)

theorem settled_login {c m x y : Nat} (h : Settled s) (hThere : (s.maps m).isThere)
    (hLogin : login s c m x y = some s') : Settled s' := by
  unfold login at hLogin
  split at hLogin
  · cases hLogin
  case isFalse hNew =>
    obtain rfl := Option.some.inj hLogin
    have hOld : ∀ d ∈ s.online, (s.setChar c ⟨some m, m, x, y, none, none⟩).chars d = s.chars d := by
      intro d hd
      rw [State.setChar_chars, if_neg]
      rintro rfl
      exact hNew hd
    have hSelf : (s.setChar c ⟨some m, m, x, y, none, none⟩).chars c = ⟨some m, m, x, y, none, none⟩ :=
      (State.setChar_chars ..).trans (if_pos rfl)
    have hCore : Core { s.setChar c ⟨some m, m, x, y, none, none⟩ with online := s.online ++ [c] } := by
      refine ⟨?_, fun a arena ha => ?_, fun n d hd => ?_, fun d hd => ?_, h.owned, h.numbered, h.made⟩
      · exact List.nodup_append_comm.mp (List.nodup_cons.mpr ⟨hNew, h.nodup⟩)
      · have hCounted := h.counted a arena ha
        rw [hCounted, State.occupying, State.occupying, List.countP_append, List.countP_singleton]
        simp only [hSelf]
        simp only [reduceCtorEq, decide_false, Bool.false_eq_true, if_false, Nat.add_zero]
        exact congrArg Nat.cast (List.countP_congr fun d hd => by rw [hOld d hd])
      · obtain ⟨hOnline, hMap⟩ := h.listed n d hd
        refine ⟨List.mem_append_left _ hOnline, ?_⟩
        dsimp only
        rw [hOld d hOnline, hMap]
      · rcases List.mem_append.mp hd with hOnline | hLast
        · dsimp only
          rw [hOld d hOnline]
          exact h.here d hOnline
        · obtain rfl := List.mem_singleton.mp hLast
          dsimp only
          rw [hSelf]
          exact ⟨rfl, hThere⟩
    refine ⟨hCore.enter (c := c) (by simp) (by rw [hSelf]), fun d hd _ => ?_, by simp⟩
    rcases List.mem_append.mp hd with hOnline | hLast
    · have hNe : d ≠ c := fun hSame => hNew (hSame ▸ hOnline)
      refine (h.stands d hOnline List.not_mem_nil).untouched (fun _ => rfl) ⟨hOld d hOnline, fun n => ?_⟩
      exact (untouched_enter (s.setChar c ⟨some m, m, x, y, none, none⟩) m hNe).2 n
    · obtain rfl := List.mem_singleton.mp hLast
      refine stands_nowhere ?_ ?_
      · exact congrArg Character.nextArena hSelf
      · exact congrArg Character.arena hSelf

theorem settled_walk {c x y : Nat} (h : Settled s) : Settled (s.setChar c { s.chars c with x := x, y := y }) := by
  refine ⟨h.toCore.setChar rfl (fun m hm => (h.listed m c hm).2) (h.here c), fun d hd _ => ?_, nofun⟩
  have hStands := h.stands d hd List.not_mem_nil
  rw [Stands, State.setChar_chars]
  split
  case isTrue hSame => exact hSame ▸ hStands
  case isFalse => exact hStands

theorem settled_step {event : Event} (h : Settled s) (hGood : ¬Strands s event) (hStep : step s event = some s') :
    Settled s' := by
  cases event with
  | spawn a force rules => exact settled_spawn h hStep
  | attack attacker direction rules =>
      obtain ⟨hOnline, hAttack⟩ := Option.ite_none_right_eq_some.mp hStep
      exact settled_attack h hOnline hAttack
  | warp w rules => exact settled_warp h hStep
  | logout c rules => exact settled_logout h hStep
  | rehash config rules => exact settled_rehash h hStep
  | reload m changed file =>
      obtain ⟨hRange, hReload⟩ := Option.ite_none_left_eq_some.mp hStep
      split at hReload
      case isTrue hChanged =>
        obtain ⟨hFree, hStay⟩ := not_or.mp fun hBad => hGood ⟨hChanged, hBad⟩
        exact settled_reload h (by omega) hFree hStay hReload
      case isFalse =>
        obtain rfl := Option.some.inj hReload
        exact h
  | addMap file => exact settled_addMap h hStep
  | login c m x y => exact settled_login h (not_not.mp hGood) hStep
  | walk c x y =>
      obtain ⟨-, hWalk⟩ := Option.ite_none_right_eq_some.mp hStep
      obtain rfl := Option.some.inj hWalk
      exact settled_walk h

theorem settled_empty (config : Nat → ArenaConfig) : Settled (State.empty config) :=
  ⟨⟨List.nodup_nil, nofun, nofun, nofun, nofun, fun _ _ => rfl, nofun⟩, nofun, nofun⟩

end Runs

section Duel

/-- Two tiles lead into the arena. -/
def duel : ArenaConfig := ⟨true, 10, [1, 1, 5, 5, 1, 2, 5, 6]⟩

/-- Two characters are let into the arena of the first map. -/
def gathering : List Event :=
  [.addMap (some (2, 2)), .login 7 1 1 1, .login 8 1 1 2, .spawn 0 false fun _ => []]

end Duel

end Etheos.Arenas
