import Etheos.World.Presence

/-! Each character in the world is on the list of the map that it points at, once, and on no other list; a character
that waits for its way back from death, or is not in the world, is on none. -/
namespace Etheos.Presences

open General World

variable {w w' w'' : World} {c d : CharId} {m : Nat} {map : Int}

section Places

theorem getMap_idOf (w : World) (id : Int) : w.getMap (idOf (w.getMap id)) = w.getMap id := by
  simp only [World.getMap, idOf]
  split
  · split <;> omega
  · split <;> omega

theorem idOf_getMap (h : w.admits map = true) : idOf (w.getMap map) = map := by
  simp only [World.admits, Bool.and_eq_true, decide_eq_true_eq] at h
  simp only [idOf, World.getMap]
  split <;> omega

theorem loaded_of_admits (h : w.admits map = true) : w.loaded (w.getMap map) = true :=
  (Bool.and_eq_true_iff.mp h).2

/-- The character is once on the list of this map, and on no other list. -/
def Placed (w : World) (c : CharId) (place : Option Nat) : Prop :=
  ∀ m, (w.characters m).count c = if place = some m then 1 else 0

/-- What a warp of one character leaves as it was. -/
structure Moved (c : CharId) (w w' : World) : Prop where
  size : w'.size = w.size
  loaded : w'.loaded = w.loaded
  online : (w'.person c).online = (w.person c).online
  person : ∀ d, d ≠ c → w'.person d = w.person d
  count : ∀ d m, d ≠ c → (w'.characters m).count d = (w.characters m).count d

theorem Moved.refl (c : CharId) (w : World) : Moved c w w := ⟨rfl, rfl, rfl, fun _ _ => rfl, fun _ _ _ => rfl⟩

theorem Moved.trans (h : Moved c w w') (h' : Moved c w' w'') : Moved c w w'' where
  size := h'.size.trans h.size
  loaded := h'.loaded.trans h.loaded
  online := h'.online.trans h.online
  person d hOther := (h'.person d hOther).trans (h.person d hOther)
  count d m hOther := (h'.count d m hOther).trans (h.count d m hOther)

theorem Moved.getMap (h : Moved c w w') (id : Int) : w'.getMap id = w.getMap id := by
  simp only [World.getMap, h.size]

theorem Moved.admits (h : Moved c w w') (map : Int) : w'.admits map = w.admits map := by
  simp only [World.admits, h.size, h.loaded, h.getMap]

theorem Moved.placed (h : Moved c w w') (hOther : d ≠ c) {place : Option Nat} (hPlaced : Placed w d place) :
    Placed w' d place :=
  fun m => (h.count d m hOther).trans (hPlaced m)

theorem moved_modify (w : World) (c : CharId) (f : Person → Person)
    (hOnline : (f (w.person c)).online = (w.person c).online) : Moved c w (w.modify c f) where
  size := rfl
  loaded := rfl
  online := by simp [World.modify, hOnline]
  person d hOther := by simp [World.modify, hOther]
  count _ _ _ := rfl

theorem moved_leave (w : World) (m : Nat) (c : CharId) : Moved c w (w.leave m c) where
  size := rfl
  loaded := rfl
  online := by simp [World.leave, World.modify]
  person d hOther := by simp [World.leave, World.modify, hOther]
  count d m' hOther := by
    by_cases h : m' = m
    · subst h
      simp only [World.leave, Function.update_self]
      exact List.count_filter (by simpa using hOther)
    · simp [World.leave, h]

theorem moved_enter (w : World) (m : Nat) (c : CharId) : Moved c w (w.enter m c) where
  size := rfl
  loaded := rfl
  online := by simp [World.enter, World.modify]
  person d hOther := by simp [World.enter, World.modify, hOther]
  count d m' hOther := by
    by_cases h : m' = m
    · subst h
      simp only [World.enter, Function.update_self, List.count_append]
      simp [Ne.symm hOther]
    · simp [World.enter, h]

theorem placed_leave (h : Placed w c none ∨ Placed w c (some m)) : Placed (w.leave m c) c none := by
  intro m'
  by_cases hSame : m' = m
  · subst hSame
    simp [World.leave, List.count_eq_zero]
  · have hOld : (w.characters m').count c = 0 := by
      obtain h | h := h
      · simpa using h m'
      · simpa [Ne.symm hSame] using h m'
    simpa [World.leave, hSame] using hOld

theorem placed_enter (h : Placed w c none) : Placed (w.enter m c) c (some m) := by
  intro m'
  have hOld : (w.characters m').count c = 0 := by simpa using h m'
  by_cases hSame : m' = m
  · subst hSame
    simp [World.enter, hOld]
  · simp [World.enter, hSame, Ne.symm hSame, hOld]

end Places

section Warps

/-- The character is where it points, and the map is loaded. -/
structure Standing (w : World) (c : CharId) (m : Nat) : Prop where
  map : (w.person c).map = some m
  nowhere : (w.person c).nowhere = false
  mapid : w.getMap (w.person c).mapid = m
  placed : Placed w c (some m)
  loaded : w.loaded m = true

/-- A warp of the character leaves nothing behind. -/
def Ready (w : World) (c : CharId) : Prop :=
  Placed w c none ∨ ∃ m, (w.person c).map = some m ∧ w.loaded m = true ∧ Placed w c (some m)

theorem Standing.ready (h : Standing w c m) : Ready w c := .inr ⟨m, h.map, h.loaded, h.placed⟩

theorem moved_depart (w : World) (c : CharId) (map : Int) : Moved c w (w.depart c map) := by
  unfold World.depart
  refine Moved.trans ?_ (moved_modify _ c _ rfl)
  split
  · split
    · exact moved_leave ..
    · exact .refl ..
  · exact .refl ..

theorem depart_person (w : World) (c : CharId) (map : Int) :
    ((w.depart c map).person c).map = some (w.getMap map) ∧
      ((w.depart c map).person c).mapid = idOf (w.getMap map) := by
  simp [World.depart, World.modify]

theorem placed_modify {f : Person → Person} {place : Option Nat} :
    Placed (w.modify d f) c place ↔ Placed w c place :=
  Iff.rfl

theorem Ready.depart (h : Ready w c) (map : Int) : Placed (w.depart c map) c none := by
  unfold World.depart
  refine placed_modify.mpr ?_
  obtain h | ⟨m, hMap, hLoaded, hPlaced⟩ := h
  · split
    · split
      · exact placed_leave (.inl h)
      · exact h
    · exact h
  · simp only [hMap, hLoaded, if_true]
    exact placed_leave (.inr hPlaced)

theorem moved_arrive (w : World) (c : CharId) : Moved c w (w.arrive c) := by
  unfold World.arrive
  split
  · exact (moved_modify w c _ rfl).trans (moved_enter ..)
  · exact .refl ..

theorem standing_arrive (hPlaced : Placed w c none) (hMap : (w.person c).map = some m)
    (hMapid : w.getMap (w.person c).mapid = m) (hLoaded : w.loaded m = true) : Standing (w.arrive c) c m := by
  have hArrive : w.arrive c = (w.modify c ({ · with nowhere := false })).enter m c := by
    simp only [World.arrive, hMap]
  rw [hArrive]
  refine ⟨?_, ?_, ?_, placed_enter hPlaced, hLoaded⟩
  · simp [World.enter, World.modify]
  · simp [World.enter, World.modify]
  · simpa [World.enter, World.modify, World.getMap] using hMapid

/-- The character leaves the old map, and gets to the new one. -/
theorem Ready.travels (h : Ready w c) (hAdmits : w.admits map = true) :
    Standing ((w.depart c map).arrive c) c (w.getMap map) := by
  obtain ⟨hMap, hMapid⟩ := depart_person w c map
  have hMoved := moved_depart w c map
  refine standing_arrive (h.depart map) hMap ?_ ?_
  · rw [hMoved.getMap, hMapid, getMap_idOf]
  · rw [hMoved.loaded]
    exact loaded_of_admits hAdmits

mutual

theorem moved_journey (c : CharId) : ∀ (j : Journey) (w : World), Moved c w (w.journey c j)
  | .warp map entering, w => by
      simp only [World.journey]
      split
      · exact ((moved_depart w c map).trans (moved_arrive ..)).trans (moved_journeys c entering _)
      · exact .refl ..

theorem moved_journeys (c : CharId) : ∀ (js : List Journey) (w : World), Moved c w (w.journeys c js)
  | [], _ => .refl ..
  | j :: js, w => (moved_journey c j w).trans (moved_journeys c js _)

end

/-- The character has gone to a map that is loaded, or has not gone at all. -/
def Arrives (w w' : World) (c : CharId) : Prop := w' = w ∨ ∃ m, Standing w' c m

mutual

theorem Ready.journey {c : CharId} : ∀ (j : Journey) {w : World}, Ready w c → Arrives w (w.journey c j) c
  | .warp map entering, _, h => by
      simp only [World.journey]
      split
      next hAdmits =>
        have hThere := h.travels hAdmits
        obtain hSame | hGone := Ready.journeys entering hThere.ready
        · rw [hSame]
          exact .inr ⟨_, hThere⟩
        · exact .inr hGone
      next => exact .inl rfl

theorem Ready.journeys {c : CharId} : ∀ (js : List Journey) {w : World}, Ready w c → Arrives w (w.journeys c js) c
  | [], w, _ => .inl rfl
  | j :: js, w, h => by
      simp only [World.journeys]
      obtain hSame | ⟨m, hThere⟩ := Ready.journey j h
      · rw [hSame]
        exact Ready.journeys js h
      · obtain hSame | hGone := Ready.journeys js hThere.ready
        · rw [hSame]
          exact .inr ⟨m, hThere⟩
        · exact .inr hGone

end

theorem Standing.journeys (h : Standing w c m) (js : List Journey) : ∃ m', Standing (w.journeys c js) c m' := by
  obtain hSame | hGone := h.ready.journeys js
  · rw [hSame]
    exact ⟨m, h⟩
  · exact hGone

/-- Where no warp goes on, nothing happens. -/
theorem journeys_still {js : List Journey} (h : w.moves js = false) : w.journeys c js = w := by
  induction js with
  | nil => rfl
  | cons j js ih =>
      obtain ⟨map, entering⟩ := j
      obtain ⟨hFirst, hRest⟩ := Bool.or_eq_false_iff.mp h
      have hStays : w.journey c (.warp map entering) = w := by
        simp only [World.journey]
        exact if_neg (by simp [hFirst])
      rw [World.journeys, hStays]
      exact ih hRest

end Warps

section Steps

/-- The character is on the list that it should be on. -/
structure Fits (w : World) (c : CharId) : Prop where
  here : (w.person c).online = true → (w.person c).nowhere = false →
    ∃ m, (w.person c).map = some m ∧ w.getMap (w.person c).mapid = m ∧ Placed w c (some m)
  gone : (w.person c).online = false ∨ (w.person c).nowhere = true → Placed w c none

theorem Standing.fits (h : Standing w c m) (hOnline : (w.person c).online = true) : Fits w c := by
  refine ⟨fun _ _ => ⟨m, h.map, h.mapid, h.placed⟩, fun hGone => ?_⟩
  rw [hOnline, h.nowhere] at hGone
  simp at hGone

theorem fits_of_gone (hPlaced : Placed w c none) (hGone : (w.person c).online = false ∨ (w.person c).nowhere = true) :
    Fits w c := by
  refine ⟨fun hOnline hHere => ?_, fun _ => hPlaced⟩
  rw [hOnline, hHere] at hGone
  simp at hGone

theorem Moved.fits (h : Moved c w w') (hOther : d ≠ c) (hFits : Fits w d) : Fits w' d := by
  refine ⟨?_, ?_⟩
  · rw [h.person d hOther]
    intro hOnline hHere
    obtain ⟨m, hMap, hMapid, hPlaced⟩ := hFits.here hOnline hHere
    exact ⟨m, hMap, (h.getMap _).trans hMapid, h.placed hOther hPlaced⟩
  · rw [h.person d hOther]
    exact fun hGone => h.placed hOther (hFits.gone hGone)

theorem Moved.stranded (h : Moved c w w') (hOther : d ≠ c) : w'.stranded d = w.stranded d := by
  simp only [World.stranded, h.person d hOther, h.loaded]

theorem Moved.moves (h : Moved c w w') (js : List Journey) : w'.moves js = w.moves js := by
  simp only [World.moves, h.admits]

/-- A character that does not stand on a lost map can be warped. -/
theorem Fits.ready (h : Fits w c) (hStranded : w.stranded c = false) : Ready w c := by
  cases hOnline : (w.person c).online with
  | false => exact .inl (h.gone (.inl hOnline))
  | true =>
      cases hHere : (w.person c).nowhere with
      | true => exact .inl (h.gone (.inr hHere))
      | false =>
          obtain ⟨m, hMap, -, hPlaced⟩ := h.here hOnline hHere
          refine .inr ⟨m, hMap, ?_, hPlaced⟩
          simpa [World.stranded, hOnline, hHere, hMap] using hStranded

theorem Fits.journeys (h : Fits w c) (hOnline : (w.person c).online = true) {js : List Journey}
    (hStrands : (w.moves js && w.stranded c) = false) : Fits (w.journeys c js) c := by
  cases hMoves : w.moves js with
  | false =>
      rw [journeys_still hMoves]
      exact h
  | true =>
      rw [hMoves, Bool.true_and] at hStrands
      obtain hSame | ⟨m, hThere⟩ := (h.ready hStrands).journeys js
      · rw [hSame]
        exact h
      · exact hThere.fits ((moved_journeys c js w).online.trans hOnline)

/-- Everybody else is where they should be. -/
def Others (w : World) (c : CharId) : Prop := ∀ d, d ≠ c → Fits w d

theorem Others.moved (h : Others w c) (hMoved : Moved c w w') : Others w' c :=
  fun d hOther => hMoved.fits hOther (h d hOther)

theorem Others.modify (h : Others w c) (f : Person → Person) : Others (w.modify c f) c := by
  intro d hOther
  have hPerson : (w.modify c f).person d = w.person d := by simp [World.modify, hOther]
  refine ⟨?_, ?_⟩
  · rw [hPerson]
    exact (h d hOther).here
  · rw [hPerson]
    exact (h d hOther).gone

/-- Everybody is on the list that they should be on. -/
def Present (w : World) : Prop := ∀ c, Fits w c

theorem Others.present (h : Others w c) (hFits : Fits w c) : Present w := by
  intro d
  by_cases hSame : d = c
  · rw [hSame]
    exact hFits
  · exact h d hSame

/-- The other side of a trade is warped by its quests, and `c` is not. -/
theorem Others.partner (h : Others w c) (hPartner : d ≠ c) (hOnline : (w.person d).online = true)
    {js : List Journey} (hStrands : (w.moves js && w.stranded d) = false) : Others (w.journeys d js) c := by
  intro e hOther
  by_cases hSame : e = d
  · rw [hSame]
    exact (h d hPartner).journeys hOnline hStrands
  · exact (moved_journeys d js w).fits hSame (h e hOther)

variable {closing : Option Closing}

/-- The trade of a character on its way between two maps is closed. -/
theorem close_between (hCloses : w.Closes c closing) (hOwn : w.movesOwn closing = false)
    (hStrands : w.strandsPartner closing = false) (h : Others w c) :
    Others (w.close c closing) c ∧ (w.close c closing).person c = w.person c ∧
      (w.close c closing).size = w.size ∧ (w.close c closing).loaded = w.loaded ∧
      ∀ place, Placed w c place → Placed (w.close c closing) c place := by
  cases closing with
  | none => exact ⟨h, rfl, rfl, rfl, fun _ hPlaced => hPlaced⟩
  | some closing =>
      obtain ⟨hPartner, hOnline⟩ := hCloses closing rfl
      have hMoved := moved_journeys closing.partner closing.others w
      have hClose : w.close c (some closing) = w.journeys closing.partner closing.others := by
        rw [World.close, journeys_still hOwn]
      rw [hClose]
      exact ⟨h.partner hPartner hOnline hStrands, hMoved.person c (Ne.symm hPartner), hMoved.size, hMoved.loaded,
        fun _ hPlaced => hMoved.placed (Ne.symm hPartner) hPlaced⟩

theorem Present.warp (h : Present w) (hOnline : (w.person c).online = true) (hCloses : w.Closes c closing)
    (hGood : w.admits map = true →
      w.stranded c = false ∧ w.movesOwn closing = false ∧ w.strandsPartner closing = false)
    (entering : List Journey) : Present (w.warp c map closing entering) := by
  unfold World.warp
  split
  next hAdmits =>
    obtain ⟨hStranded, hOwn, hStrands⟩ := hGood hAdmits
    have hDepart := moved_depart w c map
    obtain ⟨hMap, hMapid⟩ := depart_person w c map
    have hOthers : Others (w.depart c map) c := Others.moved (fun d _ => h d) hDepart
    have hCloses' : (w.depart c map).Closes c closing := by
      intro trade hMem
      obtain ⟨hPartner, hThere⟩ := hCloses trade hMem
      exact ⟨hPartner, by rw [hDepart.person _ hPartner]; exact hThere⟩
    have hOwn' : (w.depart c map).movesOwn closing = false := by
      cases closing with
      | none => rfl
      | some closing => exact (hDepart.moves closing.own).trans hOwn
    have hStrands' : (w.depart c map).strandsPartner closing = false := by
      cases closing with
      | none => rfl
      | some closing =>
          obtain ⟨hPartner, -⟩ := hCloses closing rfl
          rw [← hStrands]
          simp only [World.strandsPartner, hDepart.moves, hDepart.stranded hPartner]
    obtain ⟨hLater, hPerson, hSize, hLoaded, hStays⟩ := close_between hCloses' hOwn' hStrands' hOthers
    have hThere : Standing (((w.depart c map).close c closing).arrive c) c (w.getMap map) := by
      refine standing_arrive (hStays none ((h c).ready hStranded |>.depart map)) (by rw [hPerson, hMap]) ?_ ?_
      · rw [hPerson, hMapid]
        simp only [World.getMap, hSize, hDepart.size]
        exact getMap_idOf w map
      · rw [hLoaded, hDepart.loaded]
        exact loaded_of_admits hAdmits
    obtain ⟨m, hEnd⟩ := hThere.journeys entering
    have hGone := (moved_arrive ((w.depart c map).close c closing) c).trans (moved_journeys c entering _)
    refine (hLater.moved hGone).present (hEnd.fits ?_)
    rw [hGone.online, hPerson, hDepart.online]
    exact hOnline
  next => exact h

/-- A trade of a character that stays is closed. -/
theorem Present.close (h : Present w) (hOnline : (w.person c).online = true) (hCloses : w.Closes c closing)
    (hStranded : w.stranded c = false) (hStrands : w.strandsPartner closing = false) :
    Present (w.close c closing) ∧ (w.close c closing).stranded c = false ∧
      ((w.close c closing).person c).online = true ∧
      ∀ d, d ≠ c → (w.person d).online = false → (w.close c closing).person d = w.person d := by
  cases closing with
  | none => exact ⟨h, hStranded, hOnline, fun _ _ _ => rfl⟩
  | some closing =>
      obtain ⟨hPartner, hThere⟩ := hCloses closing rfl
      have hOwn := moved_journeys c closing.own w
      have hOther := moved_journeys closing.partner closing.others (w.journeys c closing.own)
      have hPerson := hOther.person c (Ne.symm hPartner)
      have hFits : Fits (w.journeys c closing.own) c ∧ (w.journeys c closing.own).stranded c = false := by
        obtain hSame | ⟨m, hGone⟩ := ((h c).ready hStranded).journeys closing.own
        · rw [hSame]
          exact ⟨h c, hStranded⟩
        · exact ⟨hGone.fits (hOwn.online.trans hOnline), by simp [World.stranded, hGone.map, hGone.loaded]⟩
      have hLater : Others (w.journeys c closing.own) c := Others.moved (fun d _ => h d) hOwn
      have hStrands' : ((w.journeys c closing.own).moves closing.others &&
          (w.journeys c closing.own).stranded closing.partner) = false := by
        rw [hOwn.moves, hOwn.stranded hPartner]
        exact hStrands
      have hThere' : ((w.journeys c closing.own).person closing.partner).online = true := by
        rw [hOwn.person _ hPartner]
        exact hThere
      refine ⟨(hLater.partner hPartner hThere' hStrands').present (hOther.fits (Ne.symm hPartner) hFits.1), ?_, ?_, ?_⟩
      · exact (hOther.stranded (Ne.symm hPartner)).trans hFits.2
      · exact (congrArg Person.online hPerson).trans (hOwn.online.trans hOnline)
      · intro d hNot hOff
        have hElse : d ≠ closing.partner := by
          rintro rfl
          rw [hThere] at hOff
          contradiction
        exact (hOther.person d hElse).trans (hOwn.person d hNot)

theorem Present.logout (h : Present w) (hCloses : w.Closes c closing) (hStranded : w.stranded c = false)
    (hStrands : w.strandsPartner closing = false) :
    Present (w.logout c closing) ∧
      ∀ d, d ≠ c → (w.person d).online = false → (w.logout c closing).person d = w.person d := by
  unfold World.logout
  split
  next hOnline =>
    obtain ⟨hClosed, hStays, hThere, hElse⟩ := h.close hOnline hCloses hStranded hStrands
    generalize w.close c closing = w' at hClosed hStays hThere hElse ⊢
    have hOthers : Others (w'.modify c ({ · with online := false })) c := Others.modify (fun d _ => hClosed d) _
    have hPerson : ((w'.modify c ({ · with online := false })).person c) = { w'.person c with online := false } := by
      simp [World.modify]
    have hPlaces : Placed w' c none ∨ Placed w' c (some (w'.getMap (w'.person c).mapid)) ∧
        w'.loaded (w'.getMap (w'.person c).mapid) = true := by
      cases hHere : (w'.person c).nowhere with
      | true => exact .inl ((hClosed c).gone (.inr hHere))
      | false =>
          obtain ⟨m, hMap, hMapid, hPlaced⟩ := (hClosed c).here hThere hHere
          rw [hMapid]
          exact .inr ⟨hPlaced, by simpa [World.stranded, hThere, hHere, hMap] using hStays⟩
    constructor
    · unfold World.logoff
      simp only [hPerson]
      split
      next hLoaded =>
        refine (hOthers.moved (moved_leave ..)).present (fits_of_gone (placed_leave ?_) (.inl ?_))
        · exact hPlaces.imp id And.left
        · simp [World.leave, World.modify]
      next hLost =>
        refine hOthers.present (fits_of_gone ?_ (.inl (by rw [hPerson])))
        obtain hNone | ⟨-, hLoaded⟩ := hPlaces
        · exact hNone
        · exact absurd hLoaded hLost
    · intro d hNot hOff
      rw [← hElse d hNot hOff]
      simp only [World.logoff]
      split
      · rw [(moved_leave ..).person d hNot]
        simp [World.modify, hNot]
      · simp [World.modify, hNot]
  next => exact ⟨h, fun _ _ _ => rfl⟩

theorem Present.deathRespawn (h : Present w) (hMap : (w.person c).map = some m)
    (hOnline : (w.person c).online = true) : Present (w.deathRespawn m c) := by
  have hPlaced : Placed (w.leave m c) c none := by
    refine placed_leave ?_
    cases hHere : (w.person c).nowhere with
    | true => exact .inl ((h c).gone (.inr hHere))
    | false =>
        obtain ⟨m', hMap', -, hPlaced⟩ := (h c).here hOnline hHere
        obtain rfl := Option.some.inj (hMap.symm.trans hMap')
        exact .inr hPlaced
  refine ((Others.moved (fun d _ => h d) (moved_leave ..)).modify _).present (fits_of_gone hPlaced (.inr ?_))
  simp [World.modify]

theorem Present.internalWarp (h : Present w) (hOnline : (w.person c).online = true)
    (hNowhere : (w.person c).nowhere = true) (entering : List Journey) : Present (w.internalWarp c entering) := by
  have hOthers : Others (w.modify c ({ · with map := none })) c := Others.modify (fun d _ => h d) _
  have hPlaced : Placed (w.modify c ({ · with map := none })) c none := (h c).gone (.inr hNowhere)
  have hPresent : Present (w.modify c ({ · with map := none })) := by
    refine hOthers.present (fits_of_gone hPlaced (.inr ?_))
    simp [World.modify, hNowhere]
  have hThere : ((w.modify c ({ · with map := none })).person c).online = true := by
    simp [World.modify, hOnline]
  refine hPresent.warp hThere (by simp [World.Closes]) (fun _ => ⟨?_, rfl, rfl⟩) entering
  simp [World.stranded, World.modify]

theorem Present.load (h : Present w) (hOnline : (w.person c).online = false) (mapid spawnMap : Int) :
    Present (w.load c mapid spawnMap) := by
  unfold World.load
  refine (Others.modify (fun d _ => h d) _).present (fits_of_gone ?_ (.inl ?_))
  · exact (h c).gone (.inl hOnline)
  · simp [World.modify]

theorem Others.login (h : Others w c) (entering : List Journey) : Others (w.login c entering) c :=
  (h.moved ((moved_enter ..).trans (moved_journeys ..))).modify _

theorem Standing.setOnline (h : Standing w c m) : Standing (w.modify c ({ · with online := true })) c m := by
  refine ⟨?_, ?_, ?_, h.placed, h.loaded⟩
  · simpa [World.modify] using h.map
  · simpa [World.modify] using h.nowhere
  · simpa [World.modify, World.getMap] using h.mapid

/-- A character logs in on a loaded map. -/
theorem standing_login (hPlaced : Placed w c none) (hNowhere : (w.person c).nowhere = false)
    (hLoaded : w.loaded (w.getMap (w.person c).mapid) = true) (entering : List Journey) :
    ∃ m, Standing (w.login c entering) c m := by
  have hEntered : Standing (w.enter (w.getMap (w.person c).mapid) c) c (w.getMap (w.person c).mapid) := by
    refine ⟨?_, ?_, ?_, placed_enter hPlaced, hLoaded⟩
    · simp [World.enter, World.modify]
    · simpa [World.enter, World.modify] using hNowhere
    · simp [World.enter, World.modify, World.getMap]
  obtain ⟨m, hThere⟩ := hEntered.journeys entering
  exact ⟨m, hThere.setOnline⟩

theorem Ready.warp (h : Ready w c) (hAdmits : w.admits map = true) (entering : List Journey) :
    ∃ m, Standing (w.warp c map none entering) c m := by
  rw [World.warp, if_pos hAdmits]
  exact (h.travels hAdmits).journeys entering

theorem moved_warp (w : World) (c : CharId) (map : Int) (entering : List Journey) :
    Moved c w (w.warp c map none entering) := by
  unfold World.warp
  split
  · exact ((moved_depart ..).trans (moved_arrive ..)).trans (moved_journeys ..)
  · exact .refl ..

/-- A character logs in by taking another's place, and is then warped to where it is. -/
theorem standing_duty (hPlaced : Placed w c none) (hAdmits : w.admits (w.person c).mapid = true)
    (entering final : List Journey) :
    ∃ m, Standing ((w.login c entering).warp c ((w.login c entering).person c).mapid none final) c m := by
  let m := w.getMap (w.person c).mapid
  have hReady : Ready (w.enter m c) c :=
    .inr ⟨m, by simp [World.enter, World.modify], loaded_of_admits hAdmits, placed_enter hPlaced⟩
  obtain hSame | ⟨m', hThere⟩ := hReady.journeys entering
  · have hLogin : w.login c entering = (w.enter m c).modify c ({ · with online := true }) := by
      rw [World.login, hSame]
    rw [hLogin]
    have hEntered : Ready ((w.enter m c).modify c ({ · with online := true })) c := by
      refine .inr ⟨m, ?_, loaded_of_admits hAdmits, placed_modify.mpr (placed_enter hPlaced)⟩
      simp [World.enter, World.modify]
    refine hEntered.warp ?_ final
    simpa [World.enter, World.modify, World.admits, World.getMap] using hAdmits
  · have hLogin : Standing (w.login c entering) c m' := hThere.setOnline
    by_cases hGoes : (w.login c entering).admits ((w.login c entering).person c).mapid = true
    · exact hLogin.ready.warp hGoes final
    · rw [World.warp, if_neg hGoes]
      exact ⟨m', hLogin⟩

theorem Present.welcome (h : Present w) (hOnline : (w.person c).online = false) {mapid spawnMap : Int}
    (hLoaded : w.loaded (w.getMap mapid) = true) (entering : List Journey) :
    Present ((w.load c mapid spawnMap).login c entering) := by
  have hLoad : ((w.load c mapid spawnMap).person c) = ⟨false, some (w.getMap mapid), idOf (w.getMap mapid), false,
      spawnMap⟩ := by
    simp [World.load, World.modify]
  have hThere := h.load hOnline mapid spawnMap
  obtain ⟨m, hStanding⟩ := standing_login (w := w.load c mapid spawnMap) (c := c)
    ((hThere c).gone (.inl (by rw [hLoad]))) (by rw [hLoad])
    (by rw [hLoad]; exact (congrArg w.loaded (getMap_idOf w mapid)).trans hLoaded) entering
  refine (Others.login (fun d _ => hThere d) entering).present (hStanding.fits ?_)
  simp [World.login, World.modify]

theorem Present.duty (h : Present w) (hOnline : (w.person c).online = true) (hOff : (w.person d).online = false)
    (hCloses : w.Closes c closing) {here : Bool} (hStranded : w.stranded c = false)
    (hStrands : w.strandsPartner closing = false)
    (hAdmits : (w.swap c d here closing).admits ((w.swap c d here closing).person d).mapid = true)
    (entering final : List Journey) :
    let w := (w.swap c d here closing).login d entering
    Present (w.warp d (w.person d).mapid none final) := by
  intro w'
  have hOther : d ≠ c := by
    rintro rfl
    rw [hOnline] at hOff
    contradiction
  obtain ⟨hOut, hElse⟩ := h.logout hCloses hStranded hStrands
  have hOff' : ((w.logout c closing).person d).online = false := by rw [hElse d hOther hOff, hOff]
  have hSwap : Others (w.swap c d here closing) d ∧ Placed (w.swap c d here closing) d none := by
    have hPlaced := (hOut d).gone (.inl hOff')
    cases here with
    | false => exact ⟨fun e _ => hOut e, hPlaced⟩
    | true =>
        have hHere : w.swap c d true closing = (w.logout c closing).modify d
            ({ · with mapid := ((w.logout c closing).person c).mapid }) := rfl
        rw [hHere]
        exact ⟨Others.modify (fun e _ => hOut e) _, placed_modify.mpr hPlaced⟩
  obtain ⟨m, hThere⟩ := standing_duty hSwap.2 hAdmits entering final
  refine ((hSwap.1.login entering).moved (moved_warp ..)).present (hThere.fits ?_)
  rw [(moved_warp ..).online]
  simp [World.login, World.modify]

theorem present_step {event : Event} (h : Present w) (hGood : ¬Upsets w event) (hStep : step w event = some w') :
    Present w' := by
  cases event with
  | load c mapid spawnMap =>
      obtain ⟨hOff, hNext⟩ := Option.ite_none_left_eq_some.mp hStep
      obtain rfl := Option.some.inj hNext
      exact h.load (Bool.not_eq_true _ ▸ hOff) mapid spawnMap
  | setHome c spawnMap =>
      obtain rfl := Option.some.inj hStep
      have hPerson : (w.modify c ({ · with spawnMap })).person c = { w.person c with spawnMap } := by
        simp [World.modify]
      refine (Others.modify (fun d _ => h d) _).present ⟨?_, ?_⟩
      · rw [hPerson]
        exact (h c).here
      · rw [hPerson]
        exact (h c).gone
  | welcome c mapid spawnMap reset entering =>
      obtain ⟨hOff, hNext⟩ := Option.ite_none_left_eq_some.mp hStep
      have hLoaded : w.loaded (w.getMap mapid) = true := Bool.not_eq_false _ ▸ hGood
      have hMap : w.getMap ((w.load c mapid spawnMap).person c).mapid = w.getMap mapid := by
        simp only [World.load, World.modify, Function.update_self]
        exact getMap_idOf w mapid
      have hHere : (w.load c mapid spawnMap).loaded ((w.load c mapid spawnMap).getMap
          ((w.load c mapid spawnMap).person c).mapid) = true := (congrArg w.loaded hMap).trans hLoaded
      simp only [hHere, if_true] at hNext
      obtain rfl := Option.some.inj hNext
      exact h.welcome (Bool.not_eq_true _ ▸ hOff) hLoaded entering
  | logout c closing =>
      obtain ⟨hCloses, hNext⟩ := Option.ite_none_right_eq_some.mp hStep
      obtain rfl := Option.some.inj hNext
      obtain ⟨hStranded, hStrands⟩ := not_or.mp hGood
      exact (h.logout hCloses (Bool.not_eq_true _ ▸ hStranded) (Bool.not_eq_true _ ▸ hStrands)).1
  | warp c map closing entering =>
      obtain ⟨⟨hOnline, hCloses⟩, hNext⟩ := Option.ite_none_right_eq_some.mp hStep
      obtain rfl := Option.some.inj hNext
      refine h.warp hOnline hCloses (fun hAdmits => ?_) entering
      simpa [Upsets, hAdmits] using hGood
  | die c =>
      simp only [Presences.step] at hStep
      split at hStep
      next m hMap =>
        obtain ⟨hOnline, hNext⟩ := Option.ite_none_right_eq_some.mp hStep
        obtain rfl := Option.some.inj hNext
        exact h.deathRespawn hMap hOnline
      next => contradiction
  | internalWarp c entering =>
      obtain ⟨hOnline, hNext⟩ := Option.ite_none_right_eq_some.mp hStep
      obtain rfl := Option.some.inj hNext
      exact h.internalWarp hOnline (Bool.not_eq_false _ ▸ hGood) entering
  | duty c d here closing entering final =>
      obtain ⟨⟨hOnline, hOff, hCloses⟩, hNext⟩ := Option.ite_none_right_eq_some.mp hStep
      obtain rfl := Option.some.inj hNext
      simp only [Upsets, not_or, Bool.not_eq_true, Bool.not_eq_false] at hGood
      exact h.duty hOnline hOff hCloses hGood.1 hGood.2.1 hGood.2.2 entering final
  | reload m loaded =>
      obtain rfl := Option.some.inj hStep
      exact fun c => ⟨(h c).here, (h c).gone⟩

theorem present_start (size : Nat) (loaded : Nat → Bool) : Present (.start size loaded) :=
  fun _ => fits_of_gone (fun _ => by simp [World.start]) (.inl rfl)

end Steps

/-- Two characters meet. A quest warps the first one on when it enters the second map, the other one dies and comes
back, and the first one makes way for a third. -/
def tour : List Event :=
  [.welcome 1 1 1 [] [], .welcome 2 2 3 [] [], .warp 1 2 none [.warp 3 []], .warp 1 2 (some ⟨2, [], [.warp 9 []]⟩) [],
    .die 2, .internalWarp 2 [], .load 4 3 1, .duty 1 4 true none [] [], .logout 2 none]

/-- A packet from before its death warps the character before it is sent back to the spawn point. -/
example : ((run step (.start 3 fun _ => true)
    [.welcome 1 1 3 [] [], .die 1, .warp 1 2 none [], .internalWarp 1 []]).map fun w => [0, 1, 2].map w.characters) =
    some [[], [1], [1]] := by
  decide +kernel

end Etheos.Presences
