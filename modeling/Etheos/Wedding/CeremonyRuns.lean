import Etheos.General.Run
import Etheos.Wedding.Ceremony

/-! Weddings along the runs of a world, in which anybody may leave or come back at any time. -/
namespace Etheos.Weddings

open General
open Guilds (Name)

section Notes

variable (a b : Name)

/-- What is answered in a state. -/
def answer (state : Nat) : List Note :=
  if state = 4 then [.accepted a 4] else if state = 6 then [.accepted b 6] else []

/-- A ceremony up to the beginning of a state, from its end to its start. -/
def trail : Nat → List Note
  | 0 => [.started a b]
  | state + 1 => .entered (state + 1) :: (answer a b state ++ trail state)

/-- Behind every state 8 there is a ceremony in which both have answered. -/
def Lawful : List Note → Prop
  | [] => True
  | note :: older => (note = .entered 8 → ∃ a b rest, older = trail a b 7 ++ rest) ∧ Lawful older

theorem Lawful.cons {note : Note} {notes : List Note} (h : Lawful notes) (hNote : note ≠ .entered 8) :
    Lawful (note :: notes) :=
  ⟨fun hSame => absurd hSame hNote, h⟩

end Notes

section Orderly

/-- What is always true of a wedding. -/
structure Orderly (wedding : Wedding) : Prop where
  idle : wedding.state = 0 → wedding.partner1 = ∅ ∧ wedding.partner2 = ∅
  last : wedding.state ≤ 12
  ticks : wedding.state ≠ 0 → 0 ≤ wedding.tick
  path : 0 < wedding.state → wedding.state ≤ 8 →
    ∃ older, wedding.notes = trail wedding.partner1 wedding.partner2 wedding.state ++ older
  different : 7 ≤ wedding.state → wedding.partner1 ≠ wedding.partner2
  lawful : Lawful wedding.notes

/-- What is true of it when the next state is to come. -/
structure Answered (wedding : Wedding) : Prop where
  last : wedding.state ≤ 12
  path : wedding.state < 8 → ∃ older, wedding.notes =
    answer wedding.partner1 wedding.partner2 wedding.state ++
      trail wedding.partner1 wedding.partner2 wedding.state ++ older
  different : 6 ≤ wedding.state → wedding.partner1 ≠ wedding.partner2
  lawful : Lawful wedding.notes

variable {wedding : Wedding} {s : Scene}

theorem orderly_load (priest : Bool) : Orderly (.load priest) where
  idle _ := ⟨rfl, rfl⟩
  last := Nat.zero_le _
  ticks h := absurd rfl h
  path h := absurd h (Nat.lt_irrefl 0)
  different h := absurd h (Nat.not_succ_le_zero 6)
  lawful := trivial

theorem orderly_reset (h : Lawful wedding.notes) : Orderly wedding.reset where
  idle _ := ⟨rfl, rfl⟩
  last := Nat.zero_le _
  ticks h := absurd rfl h
  path h := absurd h (Nat.lt_irrefl 0)
  different h := absurd h (Nat.not_succ_le_zero 6)
  lawful := h

/-- The rest of the wedding does not matter. -/
theorem Orderly.congr (h : Orderly wedding) (priest timer : Bool) (requests : List Name) (asked : List (Name × Name)) :
    Orderly { wedding with priest, tickTimer := timer, requests, asked } :=
  ⟨h.idle, h.last, h.ticks, h.path, h.different, h.lawful⟩

theorem Orderly.counted (h : Orderly wedding) (hState : wedding.state ≠ 0) :
    Orderly { wedding with tick := wedding.tick + 1 } where
  idle := h.idle
  last := h.last
  ticks _ := by
    have := h.ticks hState
    show 0 ≤ wedding.tick + 1
    omega
  path := h.path
  different := h.different
  lawful := h.lawful

/-- States in which nobody is asked need no answer. -/
theorem Orderly.answered (h : Orderly wedding) (hState : wedding.state ≠ 0) (hOne : wedding.state ≠ 4)
    (hTwo : wedding.state ≠ 6) : Answered wedding where
  last := h.last
  path hEarly := by
    obtain ⟨older, hNotes⟩ := h.path (Nat.pos_of_ne_zero hState) (Nat.le_of_lt hEarly)
    refine ⟨older, ?_⟩
    rw [answer, if_neg hOne, if_neg hTwo]
    exact hNotes
  different hLate := h.different (by omega)
  lawful := h.lawful

/-- The next state, except for the one in which the couple is married. -/
theorem Answered.enter (h : Answered s.wedding) (hLast : s.wedding.state ≠ 12) (hMarry : s.wedding.state ≠ 7) :
    Orderly (s.enter (s.wedding.state + 1)).wedding where
  idle hZero := absurd hZero (Nat.succ_ne_zero _)
  last := Nat.lt_of_le_of_ne h.last hLast
  ticks _ := Int.le_refl 0
  path _ hEarly := by
    obtain ⟨older, hNotes⟩ := h.path hEarly
    refine ⟨older, ?_⟩
    show Note.entered (s.wedding.state + 1) :: s.wedding.notes = _
    rw [hNotes]
    rfl
  different hLate := h.different (Nat.le_of_succ_le_succ hLate)
  lawful := h.lawful.cons fun hSame => hMarry (Nat.succ.inj (Note.entered.inj hSame))

theorem Answered.enter_eight (h : Answered s.wedding) (hState : s.wedding.state = 7) :
    Orderly (s.enter 8).wedding where
  idle hZero := absurd hZero (by decide : (8 : Nat) ≠ 0)
  last := (by decide : 8 ≤ 12)
  ticks _ := Int.le_refl 0
  path _ _ := by
    obtain ⟨older, hNotes⟩ := h.path (by omega)
    refine ⟨older, ?_⟩
    show Note.entered 8 :: s.wedding.notes = _
    rw [hNotes, hState]
    rfl
  different _ := h.different (by omega)
  lawful := by
    obtain ⟨older, hNotes⟩ := h.path (by omega)
    refine ⟨fun _ => ⟨s.wedding.partner1, s.wedding.partner2, older, ?_⟩, h.lawful⟩
    rw [hNotes, hState]
    rfl

theorem orderly_end (h : Lawful s.wedding.notes) : Orderly (s.enter 13).errorOut.wedding :=
  orderly_reset (h.cons nofun)

theorem Answered.advance (h : Answered s.wedding) : Orderly s.advance.wedding := by
  unfold Scene.advance
  split
  · split
    · exact orderly_end h.lawful
    case isFalse hLast =>
      split
      case isTrue hMarry =>
        obtain ⟨requests, asked, hSame⟩ := Scene.married_wedding (s.enter 8)
        rw [hSame]
        exact (h.enter_eight hMarry).congr _ _ requests asked
      case isFalse hMarry => exact h.enter hLast hMarry
  · split
    · exact orderly_reset h.lawful
    · exact orderly_end h.lawful

theorem ticked_orderly (h : Orderly s.wedding) {next : Scene} (hTicked : s.Ticked next) : Orderly next.wedding := by
  cases hTicked with
  | idle hState => exact h.congr _ _ _ _
  | counted hState => exact h.counted hState
  | failed hState => exact orderly_reset h.lawful
  | advanced hState hOne hTwo hMarry => exact ((h.counted hState).answered hState hOne hTwo).advance

/-- A tick finds whom it needs. -/
theorem tick_orderly (h : Orderly s.wedding) :
    ∃ next, s.tick = some next ∧ s.Ticked next ∧ Orderly next.wedding := by
  obtain ⟨next, hTick, hTicked⟩ := Scene.tick_ticked h.last h.ticks
  exact ⟨next, hTick, hTicked, ticked_orderly h hTicked⟩

/-- Nobody is married, and the state 8 does not begin. -/
structure Quiet (s next : Scene) : Prop where
  characters : next.characters = s.characters
  state : next.wedding.state = 8 → s.wedding.state = 8

/-- The state 8 begins, with a couple that is there. -/
structure Weds (s next : Scene) : Prop where
  present : s.Present
  seven : s.wedding.state = 7
  first : s.wedding.tick = 0
  eight : next.wedding.state = 8
  partner1 : next.wedding.partner1 = s.wedding.partner1
  partner2 : next.wedding.partner2 = s.wedding.partner2
  characters : next.characters = s.married.characters

theorem married_characters (s : Scene) (wedding : Wedding) (hFirst : wedding.partner1 = s.wedding.partner1)
    (hSecond : wedding.partner2 = s.wedding.partner2) :
    ({ s with wedding } : Scene).married.characters = s.married.characters := by
  have hGive : ∀ (s s' : Scene) name, s.characters = s'.characters → s.ring = s'.ring →
      (s.give name).characters = (s'.give name).characters ∧ (s.give name).ring = (s'.give name).ring := by
    intro s s' name hCharacters hRing
    unfold Scene.give
    rw [hRing]
    split
    · exact ⟨hCharacters, hRing⟩
    · refine ⟨?_, hRing⟩
      show s.characters.modify name _ = s'.characters.modify name _
      rw [hCharacters]
  unfold Scene.married
  dsimp only
  rw [hFirst, hSecond]
  have hVowed : ({ s with wedding } : Scene).vowed.characters = s.vowed.characters := by
    unfold Scene.vowed
    dsimp only
    rw [hFirst, hSecond]
    rfl
  obtain ⟨hCharacters, hRing⟩ := hGive _ _ s.wedding.partner1 hVowed rfl
  exact (hGive _ _ s.wedding.partner2 hCharacters hRing).1

theorem quiet_advance (hState : s.wedding.state ≠ 7) : Quiet s s.advance := by
  unfold Scene.advance
  rw [if_neg hState]
  split
  · split
    · exact ⟨rfl, nofun⟩
    · exact ⟨rfl, fun hEight => absurd (Nat.succ.inj hEight) hState⟩
  · split
    · exact ⟨rfl, nofun⟩
    · exact ⟨rfl, nofun⟩

theorem weds_advance (hPresent : s.Present) (hSeven : s.wedding.state = 7) (hFirst : s.wedding.tick = 0) :
    Weds s s.counted.advance := by
  have hNext : s.counted.advance = (s.counted.enter 8).married := by
    unfold Scene.advance
    rw [if_pos (show s.counted.Present from hPresent)]
    show (if s.wedding.state = 12 then _ else if s.wedding.state = 7 then _ else _) = _
    rw [hSeven]
    rfl
  obtain ⟨requests, asked, hSame⟩ := Scene.married_wedding (s.counted.enter 8)
  rw [hNext]
  refine ⟨hPresent, hSeven, hFirst, ?_, ?_, ?_, ?_⟩
  · rw [hSame]
    rfl
  · rw [hSame]
    rfl
  · rw [hSame]
    rfl
  · exact married_characters s (s.counted.enter 8).wedding rfl rfl

/-- A tick marries the couple, or changes nothing about the characters. -/
theorem Scene.Ticked.outcome {next : Scene} (h : s.Ticked next) : Quiet s next ∨ Weds s next := by
  cases h with
  | idle hState => exact .inl ⟨rfl, fun hEight => hEight⟩
  | counted hState => exact .inl ⟨rfl, fun hEight => hEight⟩
  | failed hState => exact .inl ⟨rfl, nofun⟩
  | advanced hState hOne hTwo hMarry =>
      by_cases hSeven : s.wedding.state = 7
      · by_cases hPresent : s.Present
        · exact .inr (weds_advance hPresent hSeven (hMarry hSeven))
        · refine .inl ?_
          unfold Scene.advance
          rw [if_neg (show ¬s.counted.Present from hPresent)]
          split
          · exact ⟨rfl, nofun⟩
          · exact ⟨rfl, nofun⟩
      · have hQuiet := quiet_advance (s := s.counted) hSeven
        exact .inl ⟨hQuiet.characters, hQuiet.state⟩

/-- A wedding that begins. -/
theorem advance_of_idle (hState : s.wedding.state = 0) :
    s.advance = if s.Present then s.enter 1 else s.errorOut := by
  unfold Scene.advance
  rw [hState]
  rfl

theorem nextState_tick (hLast : s.wedding.state ≤ 12) : s.nextState Scene.tick = some s.advance :=
  Scene.nextState_eq hLast (Scene.tickWithin 1)

/-- The couple is named, and nothing else. -/
def Scene.named (s : Scene) (player1 player2 : Name) : Scene :=
  { s with wedding := { s.wedding with partner1 := player1, partner2 := player2 }.note (.started player1 player2) }

/-- A wedding that starts is one tick old, if everybody is there. -/
theorem startWedding_eq (hIdle : s.wedding.state = 0) (player1 player2 : Name) :
    s.startWedding player1 player2 = some (true,
      if (s.named player1 player2).Present then ((s.named player1 player2).enter 1).counted.startTimer
      else (s.named player1 player2).errorOut.startTimer) := by
  unfold Scene.startWedding
  rw [if_neg (by omega)]
  change ((s.named player1 player2).nextState Scene.tick).bind _ = _
  have hLast : (s.named player1 player2).wedding.state ≤ 12 := by
    show s.wedding.state ≤ 12
    omega
  rw [nextState_tick hLast, Option.bind_some, advance_of_idle (s := s.named player1 player2) hIdle]
  by_cases h : (s.named player1 player2).Present
  · rw [if_pos h, if_pos h, Scene.tick_counts (s := (s.named player1 player2).enter 1) Nat.one_ne_zero]
    rfl
  · rw [if_neg h, if_neg h, Scene.tick_idle (s := (s.named player1 player2).errorOut) rfl]
    rfl

theorem startWedding_orderly (h : Orderly s.wedding) (player1 player2 : Name) :
    ∃ started next, s.startWedding player1 player2 = some (started, next) ∧ Orderly next.wedding ∧ Quiet s next := by
  by_cases hIdle : s.wedding.state = 0
  · refine ⟨true, _, startWedding_eq hIdle player1 player2, ?_⟩
    split
    case isTrue hPresent =>
      have hAnswered : Answered (s.named player1 player2).wedding := by
        refine ⟨h.last, fun _ => ⟨s.wedding.notes, ?_⟩, fun hLate => ?_, h.lawful.cons nofun⟩
        · show _ = answer player1 player2 s.wedding.state ++ trail player1 player2 s.wedding.state ++ _
          rw [hIdle]
          rfl
        · change 6 ≤ s.wedding.state at hLate
          omega
      have hOne := hAnswered.advance
      rw [advance_of_idle (s := s.named player1 player2) hIdle, if_pos hPresent] at hOne
      exact ⟨(hOne.counted Nat.one_ne_zero).congr _ _ _ _, rfl, nofun⟩
    · have hReset : Orderly (s.named player1 player2).errorOut.wedding := orderly_reset (h.lawful.cons nofun)
      exact ⟨hReset.congr _ _ _ _, rfl, nofun⟩
  · refine ⟨false, s, if_pos (Nat.pos_of_ne_zero hIdle), h, rfl, fun hEight => hEight⟩

theorem iDo_orderly (h : Orderly s.wedding) (c : Name) (map : MapId) :
    ∃ next, s.iDo c map = some next ∧ Orderly next.wedding ∧ Quiet s next := by
  have hSame : ∃ next, some s = some next ∧ Orderly next.wedding ∧ Quiet s next :=
    ⟨s, rfl, h, rfl, fun hEight => hEight⟩
  -- Both answers are given in a state of its own, and only the first one by `partner1`.
  have hAnswers : ∀ required, Answered (s.wedding.note (.accepted c required)) → s.wedding.state ≠ 7 →
      ∃ next, { s with wedding := s.wedding.note (.accepted c required) }.nextState Scene.tick = some next ∧
        Orderly next.wedding ∧ Quiet s next := by
    intro required hAnswered hState
    have hQuiet := quiet_advance (s := { s with wedding := s.wedding.note (.accepted c required) }) hState
    exact ⟨_, nextState_tick (s := { s with wedding := s.wedding.note (.accepted c required) }) h.last,
      hAnswered.advance, hQuiet.characters, hQuiet.state⟩
  unfold Scene.iDo
  dsimp only
  by_cases hFirst : c = s.wedding.partner1
  · rw [if_pos hFirst]
    split
    · exact hSame
    case isFalse hRequired =>
      split
      · exact hSame
      · have hState : s.wedding.state = 4 := not_not.mp (not_or.mp hRequired).2
        refine hAnswers 4 ⟨h.last, fun _ => ?_, fun hLate => ?_, h.lawful.cons nofun⟩ (by omega)
        · obtain ⟨older, hNotes⟩ := h.path (by omega) (by omega)
          refine ⟨older, ?_⟩
          show Note.accepted c 4 :: s.wedding.notes = answer _ _ s.wedding.state ++ trail _ _ s.wedding.state ++ older
          rw [hNotes, hState, hFirst]
          rfl
        · change 6 ≤ s.wedding.state at hLate
          omega
  · rw [if_neg hFirst]
    by_cases hSecond : c = s.wedding.partner2
    · rw [if_pos hSecond]
      split
      · exact hSame
      case isFalse hRequired =>
        split
        · exact hSame
        · have hState : s.wedding.state = 6 := not_not.mp (not_or.mp hRequired).2
          refine hAnswers 6 ⟨h.last, fun _ => ?_, fun _ hEqual => ?_, h.lawful.cons nofun⟩ (by omega)
          · obtain ⟨older, hNotes⟩ := h.path (by omega) (by omega)
            refine ⟨older, ?_⟩
            show Note.accepted c 6 :: s.wedding.notes = answer _ _ s.wedding.state ++ trail _ _ s.wedding.state ++ older
            rw [hNotes, hState, hSecond]
            rfl
          · exact hFirst (hSecond.trans hEqual.symm)
    · rw [if_neg hSecond, if_pos (.inl rfl)]
      exact hSame

end Orderly

section Couples

variable {s : Scene}

/-- The `partner` of those that are loaded. -/
def partners (characters : Table Name Character) : Name → Option Name := Table.project (·.partner) characters

/-- Who is in the world, with the `partner`. -/
def standings (characters : Table Name Character) : Name → Option (Bool × Name) :=
  Table.project (fun self => (self.online, self.partner)) characters

theorem partners_eq (characters : Table Name Character) :
    partners characters = Option.map Prod.snd ∘ standings characters := by
  funext c
  show (characters.lookup c).map _ = ((characters.lookup c).map _).map _
  rw [Option.map_map]
  rfl

theorem standings_modify_same (characters : Table Name Character) {c : Name} {f : Character → Character}
    (hf : ∀ self, (f self).online = self.online ∧ (f self).partner = self.partner) :
    standings (characters.modify c f) = standings characters :=
  Table.project_modify_same _ characters fun self _ => Prod.ext (hf self).1 (hf self).2

theorem standings_modify (characters : Table Name Character) {c : Name} (f : Character → Character)
    {self : Character} (hSelf : characters.lookup c = some self) : standings (characters.modify c f) =
      Function.update (standings characters) c (some ((f self).online, (f self).partner)) := by
  unfold standings
  rw [Table.project_modify, hSelf]
  rfl

theorem standings_give (s : Scene) (c : Name) : standings (s.give c).characters = standings s.characters := by
  unfold Scene.give
  split
  · rfl
  · exact standings_modify_same s.characters fun _ => ⟨rfl, rfl⟩

theorem online_of_getCharacter {c : Name} (h : (s.getCharacter c).isSome = true) :
    ∃ self, s.characters.lookup c = some self ∧ self.online = true := by
  obtain ⟨self, hSelf⟩ := Option.isSome_iff_exists.mp h
  obtain ⟨hLookup, hHere⟩ := Option.filter_eq_some_iff.mp hSelf
  exact ⟨self, hLookup, (Bool.and_eq_true_iff.mp hHere).1⟩

/-- Both are married, and to each other. -/
theorem standings_married (h : s.Present) : standings s.married.characters =
    Function.update (Function.update (standings s.characters) s.wedding.partner1 (some (true, s.wedding.partner2)))
      s.wedding.partner2 (some (true, s.wedding.partner1)) := by
  obtain ⟨self, hSelf, hOnline⟩ := online_of_getCharacter h.1
  obtain ⟨other, hOther, hOtherOnline⟩ := online_of_getCharacter h.2.1
  have hFirst := standings_modify s.characters ({ · with partner := s.wedding.partner2 }) hSelf
  have hStill : ∃ still, (s.characters.modify s.wedding.partner1 ({ · with partner := s.wedding.partner2 })).lookup
      s.wedding.partner2 = some still ∧ still.online = true := by
    rw [Table.lookup_modify, hOther]
    split
    · exact ⟨_, rfl, hOtherOnline⟩
    · exact ⟨_, rfl, hOtherOnline⟩
  obtain ⟨still, hLookup, hStillOnline⟩ := hStill
  have hSecond := standings_modify _ ({ · with partner := s.wedding.partner1 }) hLookup
  rw [hFirst, hStillOnline, hOnline] at hSecond
  unfold Scene.married
  rw [standings_give, standings_give]
  unfold Scene.vowed Scene.modifyCharacter
  dsimp only
  refine (standings_modify_same _ (by intro _; exact ⟨rfl, rfl⟩)).trans ?_
  exact (standings_modify_same _ (by intro _; exact ⟨rfl, rfl⟩)).trans hSecond

theorem partners_married (h : s.Present) : partners s.married.characters =
    Function.update (Function.update (partners s.characters) s.wedding.partner1 (some s.wedding.partner2))
      s.wedding.partner2 (some s.wedding.partner1) := by
  rw [partners_eq, partners_eq, standings_married h, Function.comp_update, Function.comp_update]
  rfl

theorem partners_modify_same (characters : Table Name Character) {c : Name} {f : Character → Character}
    (hf : ∀ self, (f self).partner = self.partner) : partners (characters.modify c f) = partners characters :=
  Table.project_modify_same _ characters fun self _ => hf self

end Couples

section Runs

/-- What may happen at any time, in any order. The characters that leave stay loaded. -/
inductive Happening
  | startWedding (map : MapId) (player1 player2 : Name)
  | tick (map : MapId) (ring : Name → Option MapId)
  | iDo (map : MapId) (c : Name)
  | warp (c : Name) (map : MapId)
  | enter (c : Name) (map : MapId)
  | leave (c : Name)
  | priest (map : MapId) (present : Bool)

/-- One happening. It does not come to an end where a tick reads what is not there. -/
def happen (w : World) : Happening → Option World
  | .startWedding map player1 player2 =>
      w.onWedding map (fun _ => none) fun s => (s.startWedding player1 player2).map (·.2)
  | .tick map ring => w.tick map ring
  | .iDo map c =>
      match w.getCharacter c with
      | none => some w
      | some self => w.onWedding map (fun _ => none) (·.iDo c self.map)
  | .warp c map =>
      match w.getCharacter c with
      | none => some w
      | some self => some (w.warp c self map)
  | .enter c map => some (w.modifyCharacter c ({ · with online := true, map, npcType := .npc }))
  | .leave c =>
      match w.getCharacter c with
      | none => some w
      | some self => some ((w.leaveMap c self).modifyCharacter c ({ · with online := false }))
  | .priest map present => some (w.modifyWedding map ({ · with priest := present }))

/-- The state 8 of a wedding of these two has begun. -/
def Enters (w next : World) (map : MapId) (a b : Name) : Prop :=
  ∃ before after, w.weddings.lookup map = some before ∧ next.weddings.lookup map = some after ∧
    before.state ≠ 8 ∧ after.state = 8 ∧ after.partner1 = a ∧ after.partner2 = b

/-- Partners are changed where the state 8 begins, and for both at once. -/
structure Performs (w next : World) : Prop where
  both : ∀ map a b, Enters w next map a b →
    a ≠ b ∧ partners next.characters a = some b ∧ partners next.characters b = some a
  only : ∀ c, partners next.characters c ≠ partners w.characters c → ∃ map a b, Enters w next map a b ∧ (c = a ∨ c = b)

/-- A wedding that is over has no names, and one that got to the state 8 has the answers of both. -/
def Sound (w : World) : Prop :=
  ∀ map wedding, w.weddings.lookup map = some wedding →
    (wedding.state = 0 → wedding.partner1 = ∅ ∧ wedding.partner2 = ∅) ∧
      (wedding.state = 8 → ∃ older, wedding.notes = trail wedding.partner1 wedding.partner2 8 ++ older) ∧
      Lawful wedding.notes

def AllOrderly (w : World) : Prop := ∀ map wedding, w.weddings.lookup map = some wedding → Orderly wedding

variable {w : World}

/-- A call of a wedding, with what is known of its outcome. -/
theorem onWedding_orderly (h : AllOrderly w) (map : MapId) (ring : Name → Option MapId) {f : Scene → Option Scene}
    (hf : ∀ s : Scene, Orderly s.wedding →
      ∃ next, f s = some next ∧ Orderly next.wedding ∧ (Quiet s next ∨ Weds s next)) :
    ∃ next, w.onWedding map ring f = some next ∧ AllOrderly next ∧ Performs w next := by
  have hSame : ∀ before : Wedding, before.state ≠ 8 → ∀ after : Wedding, after.state = 8 → before ≠ after := by
    rintro before hBefore after hAfter rfl
    exact hBefore hAfter
  unfold World.onWedding
  cases hWedding : w.weddings.lookup map with
  | none =>
      refine ⟨w, rfl, h, fun map a b hEnters => ?_, fun c hChanged => absurd rfl hChanged⟩
      obtain ⟨before, after, hBefore, hAfter, hOld, hNew, -⟩ := hEnters
      rw [hBefore] at hAfter
      exact absurd (Option.some.inj hAfter) (hSame before hOld after hNew)
  | some wedding =>
      obtain ⟨next, hNext, hOrderly, hOutcome⟩ := hf ⟨map, wedding, w.characters, ring⟩ (h map wedding hWedding)
      dsimp only
      rw [hNext]
      refine ⟨_, rfl, fun other after hAfter => ?_, ?_⟩
      · change (w.weddings.insert map next.wedding).lookup other = some after at hAfter
        rw [Table.lookup_insert_eq] at hAfter
        split at hAfter
        · obtain rfl := Option.some.inj hAfter
          exact hOrderly
        · exact h other after hAfter
      · -- Only this wedding has changed.
        let after : World :=
          { w with
            weddings := w.weddings.insert map next.wedding
            characters := next.characters }
        have hHere : ∀ other a b, Enters w after other a b → other = map ∧ wedding.state ≠ 8 ∧ next.wedding.state = 8 ∧ next.wedding.partner1 = a ∧
              next.wedding.partner2 = b := by
          rintro other a b ⟨before, after, hBefore, hAfter, hOld, hNew, hNames⟩
          change (w.weddings.insert map next.wedding).lookup other = some after at hAfter
          rw [Table.lookup_insert_eq] at hAfter
          split at hAfter
          case isTrue hMap =>
            subst hMap
            rw [hWedding] at hBefore
            obtain rfl := Option.some.inj hBefore
            obtain rfl := Option.some.inj hAfter
            exact ⟨rfl, hOld, hNew, hNames⟩
          case isFalse =>
            rw [hBefore] at hAfter
            exact absurd (Option.some.inj hAfter) (hSame before hOld after hNew)
        obtain hQuiet | hWeds := hOutcome
        · refine ⟨fun other a b hEnters => ?_, fun c hChanged => ?_⟩
          · obtain ⟨-, hOld, hNew, -⟩ := hHere other a b hEnters
            exact absurd (hQuiet.state hNew) hOld
          · exact absurd (congrFun (congrArg partners hQuiet.characters) c) hChanged
        · have hMarried := partners_married hWeds.present
          have hDifferent := (h map wedding hWedding).different (Nat.le_of_eq hWeds.seven.symm)
          rw [← hWeds.characters] at hMarried
          refine ⟨fun other a b hEnters => ?_, fun c hChanged => ?_⟩
          · obtain ⟨-, -, -, rfl, rfl⟩ := hHere other a b hEnters
            rw [hWeds.partner1, hWeds.partner2]
            refine ⟨hDifferent, ?_, ?_⟩
            · show partners next.characters wedding.partner1 = _
              rw [hMarried, Function.update_of_ne hDifferent, Function.update_self]
            · show partners next.characters wedding.partner2 = _
              rw [hMarried, Function.update_self]
          · refine ⟨map, next.wedding.partner1, next.wedding.partner2, ?_, ?_⟩
            · refine ⟨wedding, next.wedding, hWedding, AList.lookup_insert _, ?_, hWeds.eight, rfl, rfl⟩
              rw [show wedding.state = 7 from hWeds.seven]
              decide
            · by_contra hNeither
              obtain ⟨hFirst, hSecond⟩ := not_or.mp hNeither
              refine hChanged ?_
              show partners next.characters c = _
              rw [hWeds.partner1] at hFirst
              rw [hWeds.partner2] at hSecond
              rw [hMarried, Function.update_of_ne hSecond, Function.update_of_ne hFirst]

theorem performs_of_quiet {next : World} (hPartners : partners next.characters = partners w.characters)
    (hStates : ∀ map before after, w.weddings.lookup map = some before → next.weddings.lookup map = some after →
      after.state = before.state) : Performs w next where
  both map a b hEnters := by
    obtain ⟨before, after, hBefore, hAfter, hOld, hNew, -⟩ := hEnters
    exact absurd ((hStates map before after hBefore hAfter).symm.trans hNew) hOld
  only c hChanged := absurd (congrFun hPartners c) hChanged

/-- Changes that leave a wedding as it is, but for the priest and the requests. -/
theorem modifyWedding_orderly (h : AllOrderly w) (map : MapId) {f : Wedding → Wedding}
    (hf : ∀ wedding, Orderly wedding → Orderly (f wedding)) : AllOrderly (w.modifyWedding map f) := by
  intro other wedding hWedding
  change (w.weddings.modify map f).lookup other = some wedding at hWedding
  rw [Table.lookup_modify] at hWedding
  split at hWedding
  · obtain ⟨before, hBefore, rfl⟩ := Option.map_eq_some_iff.mp hWedding
    exact hf before (h other before hBefore)
  · exact h other wedding hWedding

theorem modifyWedding_state (map : MapId) {f : Wedding → Wedding} (hf : ∀ wedding, (f wedding).state = wedding.state)
    (other : MapId) (before after : Wedding) (hBefore : w.weddings.lookup other = some before)
    (hAfter : (w.modifyWedding map f).weddings.lookup other = some after) : after.state = before.state := by
  change (w.weddings.modify map f).lookup other = some after at hAfter
  rw [Table.lookup_modify, hBefore] at hAfter
  split at hAfter
  · rw [← Option.some.inj hAfter]
    exact hf before
  · rw [← Option.some.inj hAfter]

theorem unchanged (map : MapId) (before after : Wedding) (hBefore : w.weddings.lookup map = some before)
    (hAfter : w.weddings.lookup map = some after) : after.state = before.state := by
  rw [hBefore] at hAfter
  rw [← Option.some.inj hAfter]

theorem leaveMap_orderly (h : AllOrderly w) (c : Name) (self : Character) : AllOrderly (w.leaveMap c self) :=
  modifyWedding_orderly h self.map fun _ hWedding => hWedding.congr _ _ _ _

/-- Everything that happens comes to an end, and keeps the weddings in order. -/
theorem happen_orderly (h : AllOrderly w) (happening : Happening) :
    ∃ next, happen w happening = some next ∧ AllOrderly next ∧ Performs w next := by
  have hSame : ∃ next, some w = some next ∧ AllOrderly next ∧ Performs w next :=
    ⟨w, rfl, h, performs_of_quiet rfl unchanged⟩
  unfold happen
  cases happening with
  | startWedding map player1 player2 =>
      refine onWedding_orderly h map _ fun s hOrderly => ?_
      obtain ⟨started, next, hNext, hNextOrderly, hQuiet⟩ := startWedding_orderly hOrderly player1 player2
      refine ⟨next, ?_, hNextOrderly, .inl hQuiet⟩
      rw [hNext]
      rfl
  | tick map ring =>
      dsimp only [World.tick]
      split
      · refine onWedding_orderly h map ring fun s hOrderly => ?_
        obtain ⟨next, hNext, hTicked, hNextOrderly⟩ := tick_orderly hOrderly
        exact ⟨next, hNext, hNextOrderly, hTicked.outcome⟩
      · exact hSame
  | iDo map c =>
      dsimp only
      cases w.getCharacter c with
      | none => exact hSame
      | some self =>
          refine onWedding_orderly h map _ fun s hOrderly => ?_
          obtain ⟨next, hNext, hNextOrderly, hQuiet⟩ := iDo_orderly hOrderly c self.map
          exact ⟨next, hNext, hNextOrderly, .inl hQuiet⟩
  | warp c map =>
      dsimp only
      cases w.getCharacter c with
      | none => exact hSame
      | some self =>
          refine ⟨_, rfl, leaveMap_orderly h c self, performs_of_quiet ?_ ?_⟩
          · exact partners_modify_same w.characters fun _ => rfl
          · exact modifyWedding_state self.map fun _ => rfl
  | enter c map =>
      exact ⟨_, rfl, h, performs_of_quiet (partners_modify_same w.characters fun _ => rfl) unchanged⟩
  | leave c =>
      dsimp only
      cases w.getCharacter c with
      | none => exact hSame
      | some self =>
          refine ⟨_, rfl, leaveMap_orderly h c self, performs_of_quiet ?_ ?_⟩
          · exact partners_modify_same w.characters fun _ => rfl
          · exact modifyWedding_state self.map fun _ => rfl
  | priest map present =>
      refine ⟨_, rfl, modifyWedding_orderly h map fun _ hWedding => hWedding.congr _ _ _ _, ?_⟩
      exact performs_of_quiet rfl (modifyWedding_state map fun _ => rfl)

/-- The weddings of all maps are loaded, with priests or without them. -/
def World.loaded (w : World) : World :=
  { w with weddings := w.weddings.mapValues fun _ wedding => .load wedding.priest }

theorem loaded_orderly (w : World) : AllOrderly w.loaded := by
  intro map wedding hWedding
  change (w.weddings.mapValues _).lookup map = some wedding at hWedding
  rw [Table.lookup_mapValues] at hWedding
  obtain ⟨before, -, rfl⟩ := Option.map_eq_some_iff.mp hWedding
  exact orderly_load before.priest

/-- In whatever order all of this happens, no tick reads what is not there, both are married in the
same step and only after both have answered, and a wedding that is over has no names. -/
theorem ceremony_safe (w : World) (happenings : List Happening) :
    Always happen Sound w.loaded happenings ∧
      Meets happen (fun w happening => ∃ next, happen w happening = some next ∧ Performs w next) w.loaded
        happenings := by
  have hAlways : Always happen AllOrderly w.loaded happenings := by
    refine always_of_invariant (fun w happening next hOrderly hNext => ?_) (loaded_orderly w) _
    obtain ⟨after, hAfter, hKept, -⟩ := happen_orderly hOrderly happening
    rw [hNext] at hAfter
    exact Option.some.inj hAfter ▸ hKept
  refine ⟨hAlways.mono fun w h map wedding hWedding => ?_, fun done happening s hDone hRun => ?_⟩
  · have hOrderly := h map wedding hWedding
    exact ⟨hOrderly.idle, fun hState => hState ▸ hOrderly.path (by omega) (by omega), hOrderly.lawful⟩
  · have hOrderly := hAlways done s ((List.prefix_append done [happening]).trans hDone) hRun
    obtain ⟨next, hNext, -, hPerforms⟩ := happen_orderly hOrderly happening
    exact ⟨next, hNext, hPerforms⟩

end Runs

end Etheos.Weddings
