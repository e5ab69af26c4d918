import Etheos.General.Entries
import Etheos.Map.Arena

/-! The counters of the arenas are right in every run that never takes an arena away from those
who are in it. -/
namespace Etheos.Arenas

open General Entries Maps

/-- What holds at every moment, also while a character is between two maps. -/
structure Core (s : State) : Prop where
  nodup : s.online.Nodup
  counted : ∀ a arena, s.arenas a = some arena → arena.occupants = s.occupying a
  listed : ∀ m, ∀ c ∈ (s.maps m).characters, c ∈ s.online ∧ (s.chars c).map = some m
  here : ∀ c ∈ s.online, (s.chars c).map = some (s.chars c).mapid ∧ (s.maps (s.chars c).mapid).isThere
  owned : ∀ m a, (s.maps m).arena = some a → ∃ arena, s.arenas a = some arena ∧ arena.map = m
  numbered : ∀ a, s.fresh ≤ a → s.arenas a = none
  made : ∀ m, (s.maps m).isThere → m ≤ s.size

/-- The character is in no arena, or in one that is there, and stands on its map. -/
def Stands (s : State) (c : Nat) : Prop :=
  (s.chars c).nextArena = none ∧
    ∀ a, (s.chars c).arena = some a →
      ∃ arena, s.arenas a = some arena ∧ (s.maps arena.map).characters.count c = 1

/-- The arena that the character waits for is there, and its map is one of these. -/
def Waits (maps : Nat → Prop) (s : State) (c : Nat) : Prop :=
  ∀ a, (s.chars c).nextArena = some a → ∃ arena, s.arenas a = some arena ∧ maps arena.map

/-- All but some characters stand where they should. -/
structure Settling (maps : Nat → Prop) (pending : List Nat) (s : State) : Prop extends Core s where
  stands : ∀ c ∈ s.online, c ∉ pending → Stands s c
  waits : ∀ c ∈ pending, Waits maps s c

abbrev Settled (s : State) : Prop := Settling (fun _ => False) [] s

section Counting

variable {s : State} {c a : Nat} {char : Character}

theorem occupying_setChar (hNodup : s.online.Nodup) (hc : c ∈ s.online) :
    (s.setChar c char).occupying a + (decide ((s.chars c).arena = some a)).toNat =
      s.occupying a + (decide (char.arena = some a)).toNat := by
  have hChange := countP_change (k := fun d => (s.chars d).arena = some a)
    (l := fun d => ((s.setChar c char).chars d).arena = some a) hNodup hc fun d hd => by
      simp [State.setChar, Function.update_of_ne hd]
  simpa [State.occupying, State.setChar] using hChange

theorem occupying_same (h : char.arena = (s.chars c).arena) : (s.setChar c char).occupying a = s.occupying a := by
  refine List.countP_congr fun d _ => ?_
  by_cases hd : d = c
  · simp [State.setChar, hd, h]
  · simp [State.setChar, Function.update_of_ne hd]

end Counting

/-- Nothing but the characters and the counters has changed. -/
structure Same (s s' : State) : Prop where
  online : s'.online = s.online
  arenas : ∀ a, (s'.arenas a).map Arena.map = (s.arenas a).map Arena.map
  isThere : ∀ m, (s'.maps m).isThere = (s.maps m).isThere

def Untouched (s s' : State) (c : Nat) : Prop :=
  s'.chars c = s.chars c ∧ ∀ m, (s'.maps m).characters.count c = (s.maps m).characters.count c

/-- Who is warped is in no other arena afterwards than the one that was waited for. -/
def Moved (s s' : State) (c : Nat) : Prop :=
  (s'.chars c).nextArena = none ∧ ∀ a, (s'.chars c).arena = some a → (s.chars c).nextArena = some a

def Effect (s s' : State) (c : Nat) : Prop := Untouched s s' c ∨ Moved s s' c

/-- What warps come to. -/
structure Warped (s s' : State) : Prop extends Same s s' where
  chars : ∀ c, Effect s s' c

section Effects

variable {s s' s'' : State} {c : Nat}

theorem Same.refl (s : State) : Same s s := ⟨rfl, fun _ => rfl, fun _ => rfl⟩

theorem Same.trans (h : Same s s') (h' : Same s' s'') : Same s s'' where
  online := h'.online.trans h.online
  arenas a := (h'.arenas a).trans (h.arenas a)
  isThere m := (h'.isThere m).trans (h.isThere m)

theorem arena_kept (h : ∀ a, (s'.arenas a).map Arena.map = (s.arenas a).map Arena.map) {a : Nat} {arena : Arena}
    (hArena : s.arenas a = some arena) : ∃ arena', s'.arenas a = some arena' ∧ arena'.map = arena.map := by
  have hMap := h a
  rw [hArena] at hMap
  exact Option.map_eq_some_iff.mp hMap

theorem Untouched.refl (s : State) (c : Nat) : Untouched s s c := ⟨rfl, fun _ => rfl⟩

theorem Untouched.trans (h : Untouched s s' c) (h' : Untouched s' s'' c) : Untouched s s'' c :=
  ⟨h'.1.trans h.1, fun m => (h'.2 m).trans (h.2 m)⟩

theorem Warped.refl (s : State) : Warped s s := ⟨Same.refl s, fun c => .inl (Untouched.refl s c)⟩

theorem Effect.trans (h : Effect s s' c) (h' : Effect s' s'' c) : Effect s s'' c := by
  rcases h, h' with ⟨hFirst | hFirst, hSecond | hSecond⟩
  · exact .inl (hFirst.trans hSecond)
  · refine .inr ⟨hSecond.1, fun a ha => ?_⟩
    rw [← hFirst.1]
    exact hSecond.2 a ha
  · rw [Effect, Moved, hSecond.1]
    exact .inr hFirst
  · refine .inr ⟨hSecond.1, fun a ha => ?_⟩
    have hNone := hSecond.2 a ha
    rw [hFirst.1] at hNone
    cases hNone

theorem Warped.trans (h : Warped s s') (h' : Warped s' s'') : Warped s s'' where
  toSame := h.toSame.trans h'.toSame
  chars c := (h.chars c).trans (h'.chars c)

theorem Warped.none (h : Warped s s') (hNext : (s.chars c).nextArena = none) :
    Untouched s s' c ∨ (s'.chars c).nextArena = none ∧ (s'.chars c).arena = none := by
  refine (h.chars c).imp_right fun hMoved => ⟨hMoved.1, ?_⟩
  refine Option.eq_none_iff_forall_ne_some.mpr fun a ha => ?_
  have hSome := hMoved.2 a ha
  rw [hNext] at hSome
  cases hSome

theorem Stands.untouched (h : Stands s c) (hArenas : ∀ a, (s'.arenas a).map Arena.map = (s.arenas a).map Arena.map)
    (hUntouched : Untouched s s' c) : Stands s' c := by
  obtain ⟨hNext, hArena⟩ := h
  rw [Stands, hUntouched.1]
  refine ⟨hNext, fun a ha => ?_⟩
  obtain ⟨arena, hFound, hCount⟩ := hArena a ha
  obtain ⟨arena', hFound', hMap⟩ := arena_kept hArenas hFound
  exact ⟨arena', hFound', by rw [hMap, hUntouched.2, hCount]⟩

theorem stands_nowhere (hNext : (s.chars c).nextArena = none) (hArena : (s.chars c).arena = none) : Stands s c :=
  ⟨hNext, fun a ha => by rw [hArena] at ha; cases ha⟩

theorem Stands.warped (h : Stands s c) (hWarped : Warped s s') : Stands s' c := by
  rcases hWarped.none h.1 with hUntouched | ⟨hNext, hArena⟩
  · exact h.untouched hWarped.arenas hUntouched
  · exact stands_nowhere hNext hArena

theorem Waits.warped {maps : Nat → Prop} (h : Waits maps s c) (hWarped : Warped s s') : Waits maps s' c := by
  intro a ha
  rcases hWarped.chars c with hUntouched | hMoved
  · rw [hUntouched.1] at ha
    obtain ⟨arena, hFound, hMap⟩ := h a ha
    obtain ⟨arena', hFound', hSame⟩ := arena_kept hWarped.arenas hFound
    exact ⟨arena', hFound', hSame ▸ hMap⟩
  · rw [hMoved.1] at ha
    cases ha

theorem Settling.warped {maps : Nat → Prop} {pending : List Nat} (h : Settling maps pending s)
    (hCore : Core s') (hWarped : Warped s s') : Settling maps pending s' where
  toCore := hCore
  stands c hc hNot := (h.stands c (hWarped.online ▸ hc) hNot).warped hWarped
  waits c hc := (h.waits c hc).warped hWarped

end Effects

section Depart

variable {s : State} {w : Warp}

theorem depart_eq (h : Core s) (hc : w.character ∈ s.online) :
    s.depart w = (s.leave (s.chars w.character).mapid w.character).setChar w.character
      { s.chars w.character with map := some w.map, mapid := w.map, x := w.x, y := w.y } := by
  obtain ⟨hMap, hThere⟩ := h.here w.character hc
  unfold State.depart
  dsimp only
  rw [hMap]
  dsimp only
  rw [if_pos hThere]

/-- A change of a map that keeps its arena and whether it is there. -/
theorem Core.setMap (h : Core s) {m : Nat} {map : GameMap} (hThere : map.isThere = (s.maps m).isThere)
    (hArena : map.arena = (s.maps m).arena)
    (hListed : ∀ c ∈ map.characters, c ∈ s.online ∧ (s.chars c).map = some m) : Core (s.setMap m map) where
  nodup := h.nodup
  counted := h.counted
  listed n c hc := by
    rw [State.setMap_maps] at hc
    split at hc
    case isTrue hn => exact hn ▸ hListed c hc
    case isFalse => exact h.listed n c hc
  here c hc := by
    refine ⟨(h.here c hc).1, ?_⟩
    rw [State.setMap_maps]
    split
    case isTrue hm =>
      rw [hThere, ← hm]
      exact (h.here c hc).2
    case isFalse => exact (h.here c hc).2
  owned n a ha := by
    rw [State.setMap_maps] at ha
    split at ha
    case isTrue hn =>
      rw [hArena, ← hn] at ha
      exact h.owned n a ha
    case isFalse => exact h.owned n a ha
  numbered := h.numbered
  made n hn := by
    rw [State.setMap_maps] at hn
    split at hn
    case isTrue hm =>
      rw [hThere, ← hm] at hn
      exact h.made n hn
    case isFalse => exact h.made n hn

/-- A change of a character that keeps its arena. -/
theorem Core.setChar (h : Core s) {c : Nat} {char : Character} (hArena : char.arena = (s.chars c).arena)
    (hListed : ∀ m, c ∈ (s.maps m).characters → char.map = some m)
    (hHere : c ∈ s.online → char.map = some char.mapid ∧ (s.maps char.mapid).isThere) :
    Core (s.setChar c char) where
  nodup := h.nodup
  counted a arena ha := (h.counted a arena ha).trans (congrArg Nat.cast (occupying_same hArena).symm)
  listed m d hd := by
    refine ⟨(h.listed m d hd).1, ?_⟩
    rw [State.setChar_chars]
    split
    case isTrue hSame => exact hListed m (hSame ▸ hd)
    case isFalse => exact (h.listed m d hd).2
  here d hd := by
    rw [State.setChar_chars]
    split
    case isTrue hSame => exact hHere (hSame ▸ hd)
    case isFalse => exact h.here d hd
  owned := h.owned
  numbered := h.numbered
  made := h.made

theorem Core.leave (h : Core s) (m c : Nat) : Core (s.leave m c) :=
  h.setMap rfl rfl fun d hd => h.listed m d (List.mem_of_mem_filter hd)

theorem mem_leave {s : State} {m c m' d : Nat} (h : d ∈ ((s.leave m c).maps m').characters) :
    d ∈ (s.maps m').characters ∧ (m' = m → d ≠ c) := by
  unfold State.leave at h
  rw [State.setMap_maps] at h
  split at h
  case isTrue hm =>
    obtain ⟨hMem, hNe⟩ := List.mem_filter.mp h
    exact ⟨hm ▸ hMem, fun _ => of_decide_eq_true hNe⟩
  case isFalse hm => exact ⟨h, fun hSame => absurd hSame hm⟩

/-- Who leaves the own map is on no map. -/
theorem not_mem_leave (h : Core s) {c : Nat} (hc : c ∈ s.online) (m : Nat) :
    c ∉ ((s.leave (s.chars c).mapid c).maps m).characters := by
  intro hMem
  obtain ⟨hOld, hNot⟩ := mem_leave hMem
  have hMap := (h.listed m c hOld).2
  rw [(h.here c hc).1] at hMap
  exact hNot (Option.some.inj hMap).symm rfl

theorem count_leave (s : State) (m : Nat) {c d : Nat} (hd : d ≠ c) (m' : Nat) :
    ((s.leave m c).maps m').characters.count d = (s.maps m').characters.count d := by
  unfold State.leave
  rw [State.setMap_maps]
  split
  case isTrue hm =>
    rw [hm]
    exact List.count_filter (p := (· ≠ c)) (decide_eq_true hd)
  case isFalse => rfl

theorem leave_isThere (s : State) (m c m' : Nat) : ((s.leave m c).maps m').isThere = (s.maps m').isThere := by
  unfold State.leave
  rw [State.setMap_maps]
  split
  case isTrue hm => rw [hm]
  case isFalse => rfl

theorem Core.depart (h : Core s) (hc : w.character ∈ s.online) (hThere : (s.maps w.map).isThere) :
    Core (s.depart w) := by
  rw [depart_eq h hc]
  refine (h.leave _ _).setChar rfl (fun m hMem => absurd hMem (not_mem_leave h hc m)) fun _ => ⟨rfl, ?_⟩
  rw [leave_isThere]
  exact hThere

theorem not_mem_depart (h : Core s) (hc : w.character ∈ s.online) (m : Nat) :
    w.character ∉ ((s.depart w).maps m).characters := by
  rw [depart_eq h hc]
  exact not_mem_leave h hc m

theorem same_depart (h : Core s) (hc : w.character ∈ s.online) : Same s (s.depart w) := by
  rw [depart_eq h hc]
  exact ⟨rfl, fun _ => rfl, leave_isThere s _ _⟩

theorem untouched_depart (h : Core s) (hc : w.character ∈ s.online) {d : Nat} (hd : d ≠ w.character) :
    Untouched s (s.depart w) d := by
  rw [depart_eq h hc]
  exact ⟨by rw [State.setChar_chars, if_neg hd]; rfl, count_leave s _ hd⟩

theorem depart_char (s : State) (w : Warp) : (s.depart w).chars w.character =
    { s.chars w.character with map := some w.map, mapid := w.map, x := w.x, y := w.y } :=
  (State.setChar_chars ..).trans (if_pos rfl)

end Depart

section Arrive

variable {s s' : State} {c : Nat}

theorem arrive_cases (h : s.arrive c = some s') : ∃ m, (s.chars c).map = some m ∧ s' = s.enter m c := by
  obtain ⟨m, hMap, rfl⟩ := Option.map_eq_some_iff.mp h
  exact ⟨m, hMap, rfl⟩

theorem Core.enter (h : Core s) (hc : c ∈ s.online) {m : Nat} (hMap : (s.chars c).map = some m) :
    Core (s.enter m c) := by
  refine h.setMap rfl rfl fun d hd => ?_
  rcases List.mem_append.mp hd with hOld | hNew
  · exact h.listed m d hOld
  · obtain rfl := List.mem_singleton.mp hNew
    exact ⟨hc, hMap⟩

theorem same_enter (s : State) (m c : Nat) : Same s (s.enter m c) := by
  refine ⟨rfl, fun _ => rfl, fun m' => ?_⟩
  unfold State.enter
  rw [State.setMap_maps]
  split
  case isTrue hm => rw [hm]
  case isFalse => rfl

theorem count_enter (s : State) (m c d m' : Nat) : ((s.enter m c).maps m').characters.count d =
    (s.maps m').characters.count d + if m' = m ∧ d = c then 1 else 0 := by
  unfold State.enter
  rw [State.setMap_maps]
  by_cases hm : m' = m
  · rw [if_pos hm, hm, List.count_append]
    by_cases hd : d = c
    · simp [hd]
    · simp [hd, Ne.symm hd]
  · rw [if_neg hm, if_neg fun hBoth => hm hBoth.1, Nat.add_zero]

theorem untouched_enter (s : State) (m : Nat) {d : Nat} (hd : d ≠ c) : Untouched s (s.enter m c) d :=
  ⟨rfl, fun m' => by rw [count_enter, if_neg fun hBoth => hd hBoth.2, Nat.add_zero]⟩

end Arrive

section Settle

variable {s s' : State} {c : Nat}

/-- The counters when one character has gone from an arena to another one. -/
structure Recount (s : State) (old new : Option Nat) (arenas : Nat → Option Arena) : Prop where
  same : ∀ a, (arenas a).map Arena.map = (s.arenas a).map Arena.map
  counted : ∀ a arena arena', s.arenas a = some arena → arenas a = some arena' →
    arena'.occupants + (decide (old = some a)).toNat = arena.occupants + (decide (new = some a)).toNat

theorem recount_refl (s : State) (old : Option Nat) : Recount s old old s.arenas where
  same _ := rfl
  counted a arena arena' ha ha' := by
    rw [ha] at ha'
    rw [Option.some.inj ha']

theorem count_cases {a : Nat} {n : Int} (h : s.count a n = some s') :
    ∃ arena, s.arenas a = some arena ∧
      s' = s.setArena a (some { arena with occupants := arena.occupants + n }) := by
  obtain ⟨arena, hArena, rfl⟩ := Option.map_eq_some_iff.mp h
  exact ⟨arena, hArena, rfl⟩

/-- One counter changes by one. -/
theorem recount_one {a : Nat} {arena : Arena} {n : Int} {old new : Option Nat} (hArena : s.arenas a = some arena)
    (hHere : n + (decide (old = some a)).toNat = (decide (new = some a)).toNat)
    (hOthers : ∀ b, b ≠ a → (old = some b ↔ new = some b)) :
    Recount s old new (s.setArena a (some { arena with occupants := arena.occupants + n })).arenas where
  same b := by
    rw [State.setArena_arenas]
    split
    case isTrue hb => rw [hb, hArena]; rfl
    case isFalse => rfl
  counted b found found' hFound hFound' := by
    rw [State.setArena_arenas] at hFound'
    split at hFound'
    case isTrue hb =>
      rw [hb, hArena] at hFound
      obtain rfl := Option.some.inj hFound
      obtain rfl := Option.some.inj hFound'
      rw [hb]
      dsimp only
      omega
    case isFalse hb =>
      rw [hFound] at hFound'
      rw [Option.some.inj hFound', decide_eq_decide.mpr (hOthers b hb)]

theorem leaveArena_cases (h : s.leaveArena c = some s') :
    ∃ arenas, s' = { s with arenas := arenas } ∧ Recount s (s.chars c).arena none arenas := by
  unfold State.leaveArena at h
  split at h
  case h_1 hNone =>
    obtain rfl := Option.some.inj h
    exact ⟨s.arenas, rfl, hNone ▸ recount_refl s _⟩
  case h_2 a ha =>
    obtain ⟨arena, hArena, rfl⟩ := count_cases h
    refine ⟨_, rfl, recount_one hArena ?_ fun b hb => ?_⟩
    · simp [ha]
    · simp [ha, Ne.symm hb]

theorem joinArena_cases (h : s.joinArena c = some s') (hNone : (s.chars c).arena = none) :
    ∃ arenas, s' = { s with arenas := arenas }.setChar c
        { s.chars c with arena := (s.chars c).nextArena, nextArena := none } ∧
      Recount s none (s.chars c).nextArena arenas := by
  unfold State.joinArena at h
  split at h
  case h_1 hNext =>
    obtain rfl := Option.some.inj h
    refine ⟨s.arenas, ?_, hNext ▸ recount_refl s _⟩
    have hChar : { s.chars c with arena := (s.chars c).nextArena, nextArena := none } = s.chars c := by
      generalize s.chars c = char at hNone hNext
      cases char
      cases hNone
      cases hNext
      rfl
    rw [hChar]
    exact congrArg (fun chars => { s with chars := chars }) (Function.update_eq_self c s.chars).symm
  case h_2 a ha =>
    obtain ⟨counted, hCount, rfl⟩ := Option.map_eq_some_iff.mp h
    obtain ⟨arena, hArena, rfl⟩ := count_cases hCount
    refine ⟨_, by rw [ha]; rfl, recount_one hArena ?_ fun b hb => ?_⟩
    · simp [ha]
    · simp [ha, Ne.symm hb]

/-- The pointers of one character change, and the counters with them. -/
theorem Core.setPointers (h : Core s) (hc : c ∈ s.online) {char : Character} {arenas : Nat → Option Arena}
    (hMap : char.map = (s.chars c).map) (hMapid : char.mapid = (s.chars c).mapid)
    (hRecount : Recount s (s.chars c).arena char.arena arenas) :
    Core ({ s with arenas := arenas }.setChar c char) where
  nodup := h.nodup
  counted a arena' ha := by
    obtain ⟨arena, hArena, -⟩ := Option.map_eq_some_iff.mp ((hRecount.same a).symm.trans (congrArg _ ha))
    have hOld := h.counted a arena hArena
    have hNew := hRecount.counted a arena arena' hArena ha
    have hChange := @occupying_setChar s c a char h.nodup hc
    have hGoal : ({ s with arenas := arenas }.setChar c char).occupying a = (s.setChar c char).occupying a := rfl
    rw [hGoal]
    omega
  listed m d hd := by
    refine ⟨(h.listed m d hd).1, ?_⟩
    rw [State.setChar_chars]
    split
    case isTrue hSame => rw [hMap, ← hSame]; exact (h.listed m d hd).2
    case isFalse => exact (h.listed m d hd).2
  here d hd := by
    rw [State.setChar_chars]
    split
    case isTrue hSame => rw [hMap, hMapid, ← hSame]; exact h.here d hd
    case isFalse => exact h.here d hd
  owned m a ha := by
    obtain ⟨arena, hArena, hOwn⟩ := h.owned m a ha
    obtain ⟨arena', hArena', hMap⟩ := Option.map_eq_some_iff.mp ((hRecount.same a).trans (congrArg _ hArena))
    exact ⟨arena', hArena', hMap.trans hOwn⟩
  numbered a ha := by
    have hNone := hRecount.same a
    rw [h.numbered a ha] at hNone
    exact Option.map_eq_none_iff.mp hNone
  made := h.made

/-- The last part of a warp. -/
structure Landed (s s' : State) (c : Nat) : Prop where
  core : Core s'
  online : s'.online = s.online
  maps : s'.maps = s.maps
  arenas : ∀ a, (s'.arenas a).map Arena.map = (s.arenas a).map Arena.map
  others : ∀ d, d ≠ c → s'.chars d = s.chars d
  own : s'.chars c = { s.chars c with arena := (s.chars c).nextArena, nextArena := none }

theorem settle_landed (h : Core s) (hc : c ∈ s.online) (hSettle : s.settle c = some s') : Landed s s' c := by
  obtain ⟨left, hLeave, hJoin⟩ := Option.bind_eq_some_iff.mp hSettle
  obtain ⟨arenas, rfl, hRecount⟩ := leaveArena_cases hLeave
  have hLeft : Core ({ s with arenas := arenas }.setChar c { s.chars c with arena := none }) :=
    h.setPointers hc rfl rfl hRecount
  have hSelf : ({ s with arenas := arenas }.setChar c { s.chars c with arena := none }).chars c =
      { s.chars c with arena := none } := (State.setChar_chars ..).trans (if_pos rfl)
  obtain ⟨arenas', rfl, hRecount'⟩ := joinArena_cases hJoin (by rw [hSelf])
  rw [hSelf] at hRecount' ⊢
  let joined : Character := { s.chars c with arena := (s.chars c).nextArena, nextArena := none }
  have hCore : Core (State.setChar _ c joined) := hLeft.setPointers hc (by rw [hSelf]) (by rw [hSelf])
    (by rw [hSelf]; exact hRecount')
  refine ⟨hCore, rfl, rfl, fun a => (hRecount'.same a).trans (hRecount.same a), fun d hd => ?_, ?_⟩
  · rw [State.setChar_chars, if_neg hd]
    exact (State.setChar_chars ..).trans (if_neg hd)
  · exact (State.setChar_chars ..).trans (if_pos rfl)

end Settle

section Warps

variable {s s' : State} {w : Warp} {between : State → Option State}

theorem Landed.same {c : Nat} (h : Landed s s' c) : Same s s' := ⟨h.online, h.arenas, fun _ => by rw [h.maps]⟩

theorem Landed.untouched {c d : Nat} (h : Landed s s' c) (hd : d ≠ c) : Untouched s s' d :=
  ⟨h.others d hd, fun _ => by rw [h.maps]⟩

/-- A warp that takes place, step by step. -/
theorem warpWith_cases (hThere : (s.maps w.map).isThere) (h : warpWith between s w = some s') :
    w.character ∈ s.online ∧ ∃ busy m, between (s.depart w) = some busy ∧
      (busy.chars w.character).map = some m ∧ (busy.enter m w.character).settle w.character = some s' := by
  unfold warpWith at h
  by_cases hc : w.character ∈ s.online
  · rw [if_neg (not_not.mpr hc), if_neg (not_not.mpr hThere)] at h
    obtain ⟨busy, hBusy, hRest⟩ := Option.bind_eq_some_iff.mp h
    obtain ⟨entered, hArrive, hSettle⟩ := Option.bind_eq_some_iff.mp hRest
    obtain ⟨m, hMap, rfl⟩ := arrive_cases hArrive
    exact ⟨hc, busy, m, hBusy, hMap, hSettle⟩
  · rw [if_pos hc] at h
    cases h

theorem warpWith_nowhere (hThere : ¬(s.maps w.map).isThere) (h : warpWith between s w = some s') : s' = s := by
  unfold warpWith at h
  split at h
  · cases h
  · exact (Option.some.inj h).symm

/-- What a warp keeps, and where it leads to. -/
structure Arrived (s s' : State) (w : Warp) : Prop where
  core : Core s'
  warped : Warped s s'
  next : (s'.chars w.character).nextArena = none
  stands : ∀ a, (s'.chars w.character).arena = some a →
    (s.chars w.character).nextArena = some a ∧ (s'.maps w.map).characters.count w.character = 1

theorem warpWith_arrived (hBetween : ∀ s s', Core s → between s = some s' → Core s' ∧ Warped s s') (h : Core s)
    (hThere : (s.maps w.map).isThere) (hWarp : warpWith between s w = some s') : Arrived s s' w := by
  obtain ⟨hc, busy, m, hBusy, hMap, hSettle⟩ := warpWith_cases hThere hWarp
  have hDepart := h.depart hc hThere
  obtain ⟨hCore, hWarped⟩ := hBetween _ _ hDepart hBusy
  have hOnline : w.character ∈ busy.online := by
    rw [hWarped.online, (same_depart h hc).online]
    exact hc
  have hLanded := settle_landed (hCore.enter hOnline hMap) hOnline hSettle
  have hSame : Same s s' := (((same_depart h hc).trans hWarped.toSame).trans (same_enter ..)).trans hLanded.same
  -- an arena that is entered was waited for, and no other warp has come in between
  have hWaited : ∀ a, (s'.chars w.character).arena = some a →
      (busy.chars w.character).nextArena = some a ∧ Untouched (s.depart w) busy w.character := by
    intro a ha
    have hNext : (busy.chars w.character).nextArena = some a := by rwa [hLanded.own] at ha
    refine ⟨hNext, (hWarped.chars w.character).resolve_right fun hMoved => ?_⟩
    rw [hMoved.1] at hNext
    cases hNext
  refine ⟨hLanded.core, ⟨hSame, fun d => ?_⟩, by rw [hLanded.own], fun a ha => ?_⟩
  · by_cases hd : d = w.character
    · refine .inr ?_
      rw [hd]
      refine ⟨by rw [hLanded.own], fun a ha => ?_⟩
      obtain ⟨hNext, hUntouched⟩ := hWaited a ha
      rw [hUntouched.1, depart_char] at hNext
      exact hNext
    · have hBefore : Effect s busy d := Effect.trans (.inl (untouched_depart h hc hd)) (hWarped.chars d)
      exact (hBefore.trans (.inl (untouched_enter busy m hd))).trans (.inl (hLanded.untouched hd))
  · obtain ⟨hNext, hUntouched⟩ := hWaited a ha
    have hHere : w.map = m := by
      rw [hUntouched.1, depart_char] at hMap
      exact Option.some.inj hMap
    have hNobody := List.count_eq_zero.mpr (not_mem_depart h hc w.map)
    constructor
    · rw [hUntouched.1, depart_char] at hNext
      exact hNext
    · rw [hLanded.maps, count_enter, if_pos ⟨hHere, rfl⟩, hUntouched.2, hNobody]

theorem warpWith_warped (hBetween : ∀ s s', Core s → between s = some s' → Core s' ∧ Warped s s') (h : Core s)
    (hWarp : warpWith between s w = some s') : Core s' ∧ Warped s s' := by
  by_cases hThere : (s.maps w.map).isThere
  · have hArrived := warpWith_arrived hBetween h hThere hWarp
    exact ⟨hArrived.core, hArrived.warped⟩
  · obtain rfl := warpWith_nowhere hThere hWarp
    exact ⟨h, Warped.refl _⟩

theorem warpEach_warped {one : State → Warp → Option State}
    (hOne : ∀ s s' w, Core s → one s w = some s' → Core s' ∧ Warped s s') {ws : List Warp} (h : Core s)
    (hWarps : warpEach one s ws = some s') : Core s' ∧ Warped s s' := by
  induction ws generalizing s with
  | nil =>
      obtain rfl := Option.some.inj hWarps
      exact ⟨h, Warped.refl _⟩
  | cons w rest ih =>
      obtain ⟨next, hFirst, hRest⟩ := Option.bind_eq_some_iff.mp hWarps
      obtain ⟨hCore, hWarped⟩ := hOne s next w h hFirst
      obtain ⟨hCore', hWarped'⟩ := ih hCore hRest
      exact ⟨hCore', hWarped.trans hWarped'⟩

theorem rules_warped {ws : List Warp} (h : Core s) (hRules : warpEach (warpWith some) s ws = some s') :
    Core s' ∧ Warped s s' := by
  refine warpEach_warped (fun s s' w hCore hWarp => warpWith_warped (fun s s' hCore hSame => ?_) hCore hWarp) h hRules
  obtain rfl := Option.some.inj hSame
  exact ⟨hCore, Warped.refl _⟩

theorem warp_arrived {rules : Rules} (h : Core s) (hThere : (s.maps w.map).isThere)
    (hWarp : warp rules s w = some s') :
    Arrived s s' w :=
  warpWith_arrived (fun _ _ hCore hRules => rules_warped hCore hRules) h hThere hWarp

theorem warp_warped {rules : Rules} (h : Core s) (hWarp : warp rules s w = some s') : Core s' ∧ Warped s s' :=
  warpWith_warped (fun _ _ hCore hRules => rules_warped hCore hRules) h hWarp

/-- The character that is warped to the arena's map stands where it should. -/
theorem Settling.warp {rules : Rules} {maps : Nat → Prop} {pending : List Nat}
    (h : Settling maps (w.character :: pending) s) (hMaps : ∀ m, maps m → m = w.map) (hThere : (s.maps w.map).isThere)
    (hWarp : warp rules s w = some s') : Settling maps pending s' := by
  have hArrived := warp_arrived h.toCore hThere hWarp
  refine ⟨hArrived.core, fun c hc hNot => ?_, fun c hc => ?_⟩
  · by_cases hSelf : c = w.character
    · rw [hSelf]
      refine ⟨hArrived.next, fun a ha => ?_⟩
      obtain ⟨hWaited, hCount⟩ := hArrived.stands a ha
      obtain ⟨arena, hArena, hMap⟩ := h.waits w.character List.mem_cons_self a hWaited
      obtain ⟨arena', hArena', hSame⟩ := arena_kept hArrived.warped.arenas hArena
      exact ⟨arena', hArena', by rw [hSame, hMaps _ hMap, hCount]⟩
    · have hStands := h.stands c (hArrived.warped.online ▸ hc) (by simp [hSelf, hNot])
      exact hStands.warped hArrived.warped
  · exact (h.waits c (List.mem_cons_of_mem _ hc)).warped hArrived.warped

theorem Settling.nil {maps maps' : Nat → Prop} (h : Settling maps [] s) : Settling maps' [] s :=
  ⟨h.toCore, h.stands, nofun⟩

/-- Nobody waits for an arena between two steps. -/
theorem Settling.pend {maps : Nat → Prop} (h : Settled s) {pending : List Nat}
    (hOnline : ∀ c ∈ pending, c ∈ s.online) :
    Settling maps pending s := by
  refine ⟨h.toCore, fun c hc _ => h.stands c hc List.not_mem_nil, fun c hc a ha => ?_⟩
  rw [(h.stands c (hOnline c hc) List.not_mem_nil).1] at ha
  cases ha

theorem settled_warp {rules : Rules} (h : Settled s) (hWarp : Arenas.warp rules s w = some s') : Settled s' := by
  by_cases hThere : (s.maps w.map).isThere
  · obtain ⟨hc, -⟩ := warpWith_cases hThere hWarp
    have hPending : Settling (· = w.map) [w.character] s := Settling.pend h (by simpa using hc)
    exact (hPending.warp (fun _ hm => hm) hThere hWarp).nil
  · obtain rfl := warpWith_nowhere hThere hWarp
    exact h

/-- All that wait are warped to the map of their arena. -/
theorem Settling.warpEach {rules : Rules} {m : Nat} {ws : List Warp}
    (h : Settling (· = m) (ws.map Warp.character) s) (hMap : ∀ w ∈ ws, w.map = m ∧ (s.maps m).isThere)
    (hWarps : Arenas.warpEach (Arenas.warp rules) s ws = some s') : Settled s' := by
  induction ws generalizing s with
  | nil =>
      obtain rfl := Option.some.inj hWarps
      exact h.nil
  | cons w rest ih =>
      obtain ⟨next, hFirst, hRest⟩ := Option.bind_eq_some_iff.mp hWarps
      obtain ⟨⟨rfl, hThere⟩, hOthers⟩ := List.forall_mem_cons.mp hMap
      obtain ⟨-, hWarped⟩ := warp_warped h.toCore hFirst
      refine ih (h.warp (fun _ hm => hm) hThere hFirst) (fun v hv => ⟨(hOthers v hv).1, ?_⟩) hRest
      rw [hWarped.isThere]
      exact hThere

end Warps

end Etheos.Arenas
