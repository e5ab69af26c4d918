import Etheos.General.Matching
import Etheos.Wedding.Handlers

/-! Who is married to whom, whatever is asked of law and priest. -/
namespace Etheos.Weddings

open General
open Guilds (Name)

section Partners

/-- The `partner` of a character, in the world or in its row. -/
def World.partner (w : World) (c : Name) : Option Name :=
  match w.getCharacter c with
  | some self => some self.partner
  | none => (w.rows.lookup c).map (·.partner)

def World.fiance (w : World) (c : Name) : Option Name := (w.getCharacter c).map (·.fiance)

/-- Partners are different, and each other's partners. -/
def Symmetric (w : World) : Prop :=
  ∀ a b, w.partner a = some b → b ≠ ∅ → a ≠ b ∧ w.partner b = some a

/-- What a loaded character and its row say together. -/
def current (standing : Option (Bool × Name)) (row : Option Name) : Option Name :=
  match standing with
  | some (true, partner) => some partner
  | _ => row

def rowPartners (rows : Table Name Row) : Name → Option Name := Table.project (·.partner) rows

variable {w : World} {c : Name}

theorem partner_eq (w : World) (c : Name) :
    w.partner c = current (standings w.characters c) (rowPartners w.rows c) := by
  unfold World.partner World.getCharacter standings rowPartners Table.project current
  cases w.characters.lookup c with
  | none => rfl
  | some self =>
      cases hOnline : self.online with
      | true => simp [Option.filter, hOnline]
      | false => simp [Option.filter, hOnline]

theorem partner_congr {next : World} (hStandings : standings next.characters = standings w.characters)
    (hRows : rowPartners next.rows = rowPartners w.rows) : next.partner = w.partner := by
  funext c
  rw [partner_eq, partner_eq, hStandings, hRows]

/-- A change of what is known of one character. -/
theorem partner_update {next : World} {standing : Option (Bool × Name)} {row : Option Name}
    (hStandings : standings next.characters = Function.update (standings w.characters) c standing)
    (hRows : rowPartners next.rows = Function.update (rowPartners w.rows) c row) :
    next.partner = Function.update w.partner c (current standing row) := by
  funext other
  rw [partner_eq, hStandings, hRows]
  by_cases h : other = c
  · subst h
    rw [Function.update_self, Function.update_self, Function.update_self]
  · rw [Function.update_of_ne h, Function.update_of_ne h, Function.update_of_ne h, partner_eq]

theorem standing_of_getCharacter {self : Character} (h : w.getCharacter c = some self) :
    w.characters.lookup c = some self ∧ self.online = true :=
  Option.filter_eq_some_iff.mp h

theorem partner_of_getCharacter {self : Character} (h : w.getCharacter c = some self) :
    w.partner c = some self.partner := by
  unfold World.partner
  rw [h]

end Partners

section Proper

/-- What is known of the tables. -/
structure Listed (w : World) : Prop where
  named : ∀ c, (rowPartners w.rows c).isSome = true → c ≠ ∅
  listed : ∀ c, (standings w.characters c).isSome = true → (rowPartners w.rows c).isSome = true
  orderly : AllOrderly w

/-- Whom everybody is married to. -/
def World.spouse (w : World) : Name → Option Name := Option.filter (· ≠ ∅) ∘ w.partner

variable {w next : World} {c : Name}

theorem spouse_eq_some {b : Name} : w.spouse c = some b ↔ w.partner c = some b ∧ b ≠ ∅ := by
  unfold World.spouse
  rw [Function.comp_apply, Option.filter_eq_some_iff, decide_eq_true_eq]

theorem spouse_of_empty (h : w.partner c = some ∅) : w.spouse c = none := by
  unfold World.spouse
  rw [Function.comp_apply, h]
  rfl

theorem spouse_of_some {b : Name} (h : w.partner c = some b) (hb : b ≠ ∅) : w.spouse c = some b :=
  spouse_eq_some.mpr ⟨h, hb⟩

theorem spouse_congr (h : next.partner = w.partner) : next.spouse = w.spouse := by
  unfold World.spouse
  rw [h]

theorem spouse_update {partner : Option Name} (h : next.partner = Function.update w.partner c partner) :
    next.spouse = Function.update w.spouse c (partner.filter (· ≠ ∅)) := by
  unfold World.spouse
  rw [h, Function.comp_update]

theorem Listed.isSome_row (h : Listed w) (hSome : (w.partner c).isSome = true) :
    (rowPartners w.rows c).isSome = true := by
  rw [partner_eq] at hSome
  cases hStanding : standings w.characters c with
  | none =>
      rw [hStanding] at hSome
      exact hSome
  | some standing => exact h.listed c (by rw [hStanding]; rfl)

theorem Listed.named_partner (h : Listed w) (hSome : (w.partner c).isSome = true) : c ≠ ∅ :=
  h.named c (h.isSome_row hSome)

theorem Listed.symmetric_iff (h : Listed w) : Symmetric w ↔ Matching w.spouse := by
  constructor
  · intro hSymmetric a b hMarried
    obtain ⟨hPartner, hb⟩ := spouse_eq_some.mp hMarried
    obtain ⟨hDifferent, hBack⟩ := hSymmetric a b hPartner hb
    exact ⟨hDifferent, spouse_of_some hBack (h.named_partner (by rw [hPartner]; rfl))⟩
  · intro hMatching a b hPartner hb
    obtain ⟨hDifferent, hBack⟩ := hMatching a b (spouse_of_some hPartner hb)
    exact ⟨hDifferent, (spouse_eq_some.mp hBack).1⟩

/-- The tables after a change of what is known of one character. -/
theorem Listed.update (h : Listed w) {standing : Option (Bool × Name)} {row : Option Name}
    (hStandings : standings next.characters = Function.update (standings w.characters) c standing)
    (hRows : rowPartners next.rows = Function.update (rowPartners w.rows) c row)
    (hNamed : row.isSome = true → c ≠ ∅) (hListed : standing.isSome = true → row.isSome = true)
    (hOrderly : AllOrderly next) : Listed next where
  named other hSome := by
    rw [hRows] at hSome
    by_cases hOther : other = c
    · subst hOther
      rw [Function.update_self] at hSome
      exact hNamed hSome
    · rw [Function.update_of_ne hOther] at hSome
      exact h.named other hSome
  listed other hSome := by
    rw [hStandings] at hSome
    rw [hRows]
    by_cases hOther : other = c
    · subst hOther
      rw [Function.update_self] at hSome ⊢
      exact hListed hSome
    · rw [Function.update_of_ne hOther] at hSome ⊢
      exact h.listed other hSome
  orderly := hOrderly

theorem Listed.congr (h : Listed w) (hStandings : standings next.characters = standings w.characters)
    (hRows : rowPartners next.rows = rowPartners w.rows) (hOrderly : AllOrderly next) : Listed next where
  named := hRows ▸ h.named
  listed := hStandings ▸ hRows ▸ h.listed
  orderly := hOrderly

end Proper

section Effects

variable {cfg : Config} {w next : World} {c : Name} {self : Character}

/-- What a step says about the tables and about who is married to whom. -/
structure Effect (w next : World) (spouse : Name → Option Name) : Prop where
  listed : Listed next
  spouse : next.spouse = spouse

theorem effect_congr (h : Listed w) (hStandings : standings next.characters = standings w.characters)
    (hRows : rowPartners next.rows = rowPartners w.rows) (hOrderly : AllOrderly next) : Effect w next w.spouse :=
  ⟨h.congr hStandings hRows hOrderly, spouse_congr (partner_congr hStandings hRows)⟩

theorem effect_update (h : Listed w) (next : World) {standing : Option (Bool × Name)} {row : Option Name}
    (hStandings : standings next.characters = Function.update (standings w.characters) c standing)
    (hRows : rowPartners next.rows = Function.update (rowPartners w.rows) c row)
    (hNamed : row.isSome = true → c ≠ ∅) (hListed : standing.isSome = true → row.isSome = true)
    (hOrderly : AllOrderly next) :
    Effect w next (Function.update w.spouse c ((current standing row).filter (· ≠ ∅))) :=
  ⟨h.update hStandings hRows hNamed hListed hOrderly, spouse_update (partner_update hStandings hRows)⟩

/-- The row is as it was. -/
theorem effect_standing (h : Listed w) (next : World) {standing : Option (Bool × Name)}
    (hStandings : standings next.characters = Function.update (standings w.characters) c standing)
    (hRows : next.rows = w.rows) (hKnown : (rowPartners w.rows c).isSome = true) (hOrderly : AllOrderly next) :
    Effect w next (Function.update w.spouse c ((current standing (rowPartners w.rows c)).filter (· ≠ ∅))) := by
  refine effect_update h next hStandings ?_ (h.named c) (fun _ => hKnown) hOrderly
  rw [hRows, Function.update_eq_self]

theorem effect_modifyCharacter (h : Listed w) (f : Character → Character) (hSelf : w.getCharacter c = some self)
    (hf : ∀ self, (f self).online = self.online) : Effect w (w.modifyCharacter c f)
      (Function.update w.spouse c ((some (f self).partner).filter (· ≠ ∅))) := by
  obtain ⟨hLookup, hOnline⟩ := standing_of_getCharacter hSelf
  have hStandings : standings (w.modifyCharacter c f).characters = _ := standings_modify w.characters f hLookup
  rw [hf, hOnline] at hStandings
  refine effect_standing h _ hStandings rfl ?_ h.orderly
  exact h.listed c (by rw [standings, Table.project, hLookup]; rfl)

theorem effect_modifyCharacter_same (h : Listed w) (c : Name) {f : Character → Character}
    (hf : ∀ self, (f self).online = self.online ∧ (f self).partner = self.partner) :
    Effect w (w.modifyCharacter c f) w.spouse :=
  effect_congr h (standings_modify_same w.characters hf) rfl h.orderly

theorem effect_modifyWedding (h : Listed w) (map : MapId) {f : Wedding → Wedding}
    (hf : ∀ wedding, Orderly wedding → Orderly (f wedding)) : Effect w (w.modifyWedding map f) w.spouse :=
  effect_congr h rfl rfl (modifyWedding_orderly h.orderly map hf)

theorem Effect.trans {between : World} {spouse : Name → Option Name} {f : (Name → Option Name) → Name → Option Name}
    (hFirst : Effect w between spouse) (hThen : Effect between next (f between.spouse)) : Effect w next (f spouse) :=
  ⟨hThen.listed, hThen.spouse.trans (by rw [hFirst.spouse])⟩

theorem current_of_absent (h : w.getCharacter c = none) (row : Option Name) :
    current (standings w.characters c) row = row := by
  unfold World.getCharacter at h
  unfold standings Table.project current
  cases hLookup : w.characters.lookup c with
  | none => rfl
  | some self =>
      rw [hLookup] at h
      have hOffline : self.online = false := by
        simpa [Option.filter] using h
      simp [hOffline]

/-- One that is left by its partner. -/
theorem effect_leavePartner (h : Listed w) (c name : Name)
    (hMarried : (w.getCharacter name).isSome = true ∨ w.partner name = some c) :
    Effect w (w.leavePartner c name) (Function.update w.spouse name none) := by
  unfold World.leavePartner
  cases hOther : w.getCharacter name with
  | some other => exact effect_modifyCharacter h ({ · with partner := ∅ }) hOther fun _ => rfl
  | none =>
      rw [hOther] at hMarried
      have hPartner := hMarried.resolve_left nofun
      have hNamed := h.named_partner (by rw [hPartner]; rfl)
      unfold World.partner at hPartner
      rw [hOther] at hPartner
      obtain ⟨row, hRow, hSame⟩ := Option.map_eq_some_iff.mp hPartner
      have hRows : rowPartners (w.forget c name).rows = Function.update (rowPartners w.rows) name (some ∅) := by
        refine (Table.project_modify _ _ _ _).trans ?_
        rw [hRow, Option.map_some, Function.comp_apply, if_pos hSame]
        rfl
      have hEffect := effect_update h (w.forget c name)
        (Function.update_eq_self name (standings w.characters)).symm hRows (fun _ => hNamed) (fun _ => rfl) h.orderly
      rw [current_of_absent hOther] at hEffect
      exact hEffect

/-- One that is not married to `c`, and not in the world. -/
theorem effect_leavePartner_same (h : Listed w) {c name : Name} (hAbsent : w.getCharacter name = none)
    (hOther : w.partner name ≠ some c) : Effect w (w.leavePartner c name) w.spouse := by
  unfold World.leavePartner
  rw [hAbsent]
  refine effect_congr h rfl (Table.project_modify_same _ _ fun row hRow => ?_) h.orderly
  unfold World.partner at hOther
  rw [hAbsent, hRow] at hOther
  rw [if_neg fun hSame => hOther (congrArg some hSame)]

theorem getCharacter_leavePartner {c name : Name} (h : c ≠ name) :
    (w.leavePartner c name).getCharacter c = w.getCharacter c := by
  unfold World.leavePartner
  split
  · unfold World.getCharacter World.modifyCharacter
    dsimp only
    rw [Table.lookup_modify, if_neg h]
  · rfl

theorem delGold_keeps (self : Character) (amount : Int) :
    (self.delGold amount).online = self.online ∧ (self.delGold amount).partner = self.partner := by
  unfold Character.delGold
  split
  · exact ⟨rfl, rfl⟩
  · exact ⟨rfl, rfl⟩

/-- Two that are divorced. -/
theorem divorce_matching (h : Listed w) (hMatching : Matching w.spouse) (hSelf : w.getCharacter c = some self)
    (name : Name) : Listed (w.divorce cfg c self name) ∧ Matching (w.divorce cfg c self name).spouse := by
  unfold World.divorce
  split
  · exact ⟨h, hMatching⟩
  case isFalse hMarried =>
    split
    · exact ⟨h, hMatching⟩
    · split
      · exact ⟨h, hMatching⟩
      case isFalse hName =>
        obtain rfl := not_not.mp hName
        have hSpouse := spouse_of_some (partner_of_getCharacter hSelf) hMarried
        obtain ⟨hDifferent, hBack⟩ := hMatching c self.partner hSpouse
        have hLeft := effect_leavePartner h c self.partner (.inr (spouse_eq_some.mp hBack).1)
        have hStill : (w.leavePartner c self.partner).getCharacter c = some self :=
          (getCharacter_leavePartner hDifferent).trans hSelf
        have hEffect := effect_modifyCharacter hLeft.listed
          (fun self => { self.delGold cfg.divorcePrice with partner := ∅ }) hStill
          fun self => (delGold_keeps self cfg.divorcePrice).1
        refine ⟨hEffect.listed, ?_⟩
        rw [hEffect.spouse, hLeft.spouse]
        exact hMatching.part hSpouse

theorem marriageRequest_matching (h : Listed w) (hMatching : Matching w.spouse) (hSelf : w.getCharacter c = some self)
    (type : Nat) (name : Name) :
    Listed (w.marriageRequest cfg c self type name) ∧ Matching (w.marriageRequest cfg c self type name).spouse := by
  have hApprove : Effect w (w.approve cfg c self name) w.spouse := by
    have hSame : Effect w w w.spouse := ⟨h, rfl⟩
    unfold World.approve
    split
    · exact hSame
    · split
      · exact hSame
      · split
        · exact effect_modifyCharacter_same h c fun self => delGold_keeps self cfg.marriagePrice
        · exact hSame
  unfold World.marriageRequest
  split
  · exact ⟨h, hMatching⟩
  · split
    · exact ⟨hApprove.listed, hApprove.spouse ▸ hMatching⟩
    · split
      · exact divorce_matching h hMatching hSelf name
      · exact ⟨h, hMatching⟩

theorem effect_priestOpen (h : Listed w) (c : Name) (self : Character) : Effect w (w.priestOpen c self) w.spouse := by
  have hSame : Effect w w w.spouse := ⟨h, rfl⟩
  unfold World.priestOpen
  split
  · exact hSame
  · split
    · exact hSame
    · split
      · exact hSame
      · exact effect_modifyCharacter_same h c fun _ => ⟨rfl, rfl⟩

theorem priestRequest_cases {name : Name} (hStep : w.priestRequest cfg c self name = some next) :
    next = w ∨ next = w.modifyWedding self.map (·.requestWedding c self.fiance) := by
  unfold World.priestRequest at hStep
  split at hStep
  · exact .inl (Option.some.inj hStep).symm
  · cases hWedding : w.weddings.lookup self.map with
    | none =>
        rw [hWedding] at hStep
        cases hStep
    | some wedding =>
        simp only [hWedding, Option.bind_eq_bind, Option.bind_some] at hStep
        repeat' split at hStep
        all_goals obtain rfl := Option.some.inj hStep
        all_goals simp

theorem effect_priestRequest (h : Listed w) {name : Name} (hStep : w.priestRequest cfg c self name = some next) :
    Effect w next w.spouse := by
  have hSame : Effect w w w.spouse := ⟨h, rfl⟩
  have hRequested : Effect w (w.modifyWedding self.map (·.requestWedding c self.fiance)) w.spouse :=
    effect_modifyWedding h self.map fun _ hWedding => hWedding.congr _ _ _ _
  rcases priestRequest_cases hStep with rfl | rfl
  · exact hSame
  · exact hRequested

theorem onWedding_cases {map : MapId} {ring : Name → Option MapId} {f : Scene → Option Scene}
    (hStep : w.onWedding map ring f = some next) : w.weddings.lookup map = none ∧ next = w ∨
      ∃ wedding s, w.weddings.lookup map = some wedding ∧ f ⟨map, wedding, w.characters, ring⟩ = some s ∧
        next = { w with weddings := w.weddings.insert map s.wedding, characters := s.characters } := by
  unfold World.onWedding at hStep
  cases hWedding : w.weddings.lookup map with
  | none =>
      rw [hWedding] at hStep
      exact .inl ⟨rfl, (Option.some.inj hStep).symm⟩
  | some wedding =>
      rw [hWedding] at hStep
      obtain ⟨s, hs, hNext⟩ := Option.bind_eq_some_iff.mp hStep
      exact .inr ⟨wedding, s, rfl, hs, (Option.some.inj hNext).symm⟩

/-- A call in which nobody is married. -/
theorem effect_quiet (h : Listed w) {map : MapId} {ring : Name → Option MapId} {f : Scene → Option Scene}
    (hf : ∀ s : Scene, Orderly s.wedding → ∃ next, f s = some next ∧ Orderly next.wedding ∧ Quiet s next)
    (hStep : w.onWedding map ring f = some next) : Effect w next w.spouse := by
  obtain ⟨after, hAfter, hOrderly, -⟩ := onWedding_orderly h.orderly map ring (f := f) fun s hs => by
    obtain ⟨later, hLater, hLaterOrderly, hQuiet⟩ := hf s hs
    exact ⟨later, hLater, hLaterOrderly, .inl hQuiet⟩
  rw [hStep] at hAfter
  obtain rfl := Option.some.inj hAfter
  obtain ⟨-, rfl⟩ | ⟨wedding, s, hWedding, hs, rfl⟩ := onWedding_cases hStep
  · exact ⟨h, rfl⟩
  · obtain ⟨later, hLater, -, hQuiet⟩ := hf ⟨map, wedding, w.characters, ring⟩ (h.orderly map wedding hWedding)
    rw [hs] at hLater
    obtain rfl := Option.some.inj hLater
    refine effect_congr h ?_ rfl hOrderly
    exact congrArg standings hQuiet.characters

theorem effect_priestAccept (h : Listed w) (hStep : w.priestAccept c self = some next) : Effect w next w.spouse := by
  have hSame : Effect w w w.spouse := ⟨h, rfl⟩
  unfold World.priestAccept at hStep
  split at hStep
  · exact Option.some.inj hStep ▸ hSame
  · split at hStep
    · split at hStep
      · exact Option.some.inj hStep ▸ hSame
      · split at hStep
        · refine effect_quiet h (fun s hOrderly => ?_) hStep
          obtain ⟨started, later, hLater, hLaterOrderly, hQuiet⟩ := startWedding_orderly hOrderly self.fiance c
          exact ⟨later, by rw [hLater]; rfl, hLaterOrderly, hQuiet⟩
        · exact Option.some.inj hStep ▸ hSame
    · exact Option.some.inj hStep ▸ hSame

theorem effect_priestUse (h : Listed w) (hStep : w.priestUse c self = some next) : Effect w next w.spouse :=
  effect_quiet h (fun _ hOrderly => iDo_orderly hOrderly c self.map) hStep

/-- The tick in which two are married. -/
def Marries (w : World) (map : MapId) (ring : Name → Option MapId) (a b : Name) : Prop :=
  ∃ wedding, w.weddings.lookup map = some wedding ∧ wedding.tickTimer = true ∧ wedding.state = 7 ∧
    wedding.tick = 0 ∧ Scene.Present ⟨map, wedding, w.characters, ring⟩ ∧ wedding.partner1 = a ∧ wedding.partner2 = b

theorem standing_of_present {s : Scene} {c : Name} (h : (s.getCharacter c).isSome = true) :
    ∃ self, s.characters.lookup c = some self ∧ self.online = true ∧
      standings s.characters c = some (true, self.partner) := by
  obtain ⟨self, hSelf, hOnline⟩ := online_of_getCharacter h
  refine ⟨self, hSelf, hOnline, ?_⟩
  unfold standings Table.project
  rw [hSelf, Option.map_some, hOnline]

theorem filter_named {name : Name} (h : name ≠ ∅) : (some name).filter (· ≠ ∅) = some name := by
  simp [Option.filter, h]

theorem effect_weds (h : Listed w) {map : MapId} {ring : Name → Option MapId} {wedding : Wedding} {s : Scene}
    (hWedding : w.weddings.lookup map = some wedding) (hWeds : Weds ⟨map, wedding, w.characters, ring⟩ s)
    (hOrderly : AllOrderly { w with weddings := w.weddings.insert map s.wedding, characters := s.characters }) :
    wedding.partner1 ≠ wedding.partner2 ∧
      Effect w { w with weddings := w.weddings.insert map s.wedding, characters := s.characters }
        (Function.update (Function.update w.spouse wedding.partner1 (some wedding.partner2)) wedding.partner2
          (some wedding.partner1)) := by
  have hDifferent := (h.orderly map wedding hWedding).different (Nat.le_of_eq hWeds.seven.symm)
  obtain ⟨self, hSelf, hOnline, hFirst⟩ := standing_of_present hWeds.present.1
  obtain ⟨other, -, -, hSecond⟩ := standing_of_present hWeds.present.2.1
  have hFirstRow := h.listed wedding.partner1 (by rw [hFirst]; rfl)
  have hSecondRow := h.listed wedding.partner2 (by rw [hSecond]; rfl)
  have hNames : wedding.partner1 ≠ ∅ ∧ wedding.partner2 ≠ ∅ := ⟨h.named _ hFirstRow, h.named _ hSecondRow⟩
  -- One after the other.
  let between : World := { w with characters := w.characters.modify wedding.partner1 ({ · with partner := wedding.partner2 }) }
  have hBetween : standings between.characters =
      Function.update (standings w.characters) wedding.partner1 (some (true, wedding.partner2)) := by
    refine (standings_modify w.characters _ hSelf).trans ?_
    rw [hOnline]
  have hFirstEffect := effect_standing h between hBetween rfl hFirstRow h.orderly
  have hMarried := standings_married hWeds.present
  rw [← hWeds.characters, ← hBetween] at hMarried
  have hSecondEffect := effect_standing hFirstEffect.listed
    { w with weddings := w.weddings.insert map s.wedding, characters := s.characters } hMarried rfl hSecondRow hOrderly
  refine ⟨hDifferent, hSecondEffect.listed, ?_⟩
  have hFirstSpouse : (current (some (true, wedding.partner2)) (rowPartners w.rows wedding.partner1)).filter (· ≠ ∅) =
      some wedding.partner2 := filter_named hNames.2
  have hSecondSpouse : (current (some (true, wedding.partner1)) (rowPartners w.rows wedding.partner2)).filter (· ≠ ∅) =
      some wedding.partner1 := filter_named hNames.1
  rw [hFirstSpouse] at hFirstEffect
  rw [hFirstEffect.spouse] at hSecondEffect
  exact hSecondEffect.spouse.trans (congrArg (Function.update _ _) hSecondSpouse)

/-- A tick marries two, or changes nothing about who is married. -/
theorem tick_effect (h : Listed w) {map : MapId} {ring : Name → Option MapId} (hStep : w.tick map ring = some next) :
    Effect w next w.spouse ∨ ∃ a b, Marries w map ring a b ∧ a ≠ b ∧
      Effect w next (Function.update (Function.update w.spouse a (some b)) b (some a)) := by
  unfold World.tick at hStep
  split at hStep
  case isFalse => exact .inl (Option.some.inj hStep ▸ ⟨h, rfl⟩)
  case isTrue hTimer =>
    obtain ⟨after, hAfter, hOrderly, -⟩ := onWedding_orderly h.orderly map ring (f := (·.tick)) fun s hs => by
      obtain ⟨later, hLater, hTicked, hLaterOrderly⟩ := tick_orderly hs
      exact ⟨later, hLater, hLaterOrderly, hTicked.outcome⟩
    rw [hStep] at hAfter
    obtain rfl := Option.some.inj hAfter
    obtain ⟨-, rfl⟩ | ⟨wedding, s, hWedding, hs, rfl⟩ := onWedding_cases hStep
    · exact .inl ⟨h, rfl⟩
    · obtain ⟨later, hLater, hTicked, -⟩ :=
        tick_orderly (s := ⟨map, wedding, w.characters, ring⟩) (h.orderly map wedding hWedding)
      rw [hs] at hLater
      obtain rfl := Option.some.inj hLater
      obtain hQuiet | hWeds := hTicked.outcome
      · exact .inl (effect_congr h (congrArg standings hQuiet.characters) rfl hOrderly)
      · rw [hWedding, Option.any_some] at hTimer
        obtain ⟨hDifferent, hEffect⟩ := effect_weds h hWedding hWeds hOrderly
        refine .inr ⟨wedding.partner1, wedding.partner2, ?_, hDifferent, hEffect⟩
        exact ⟨wedding, hWedding, hTimer, hWeds.seven, hWeds.first, hWeds.present, rfl, rfl⟩

theorem marries_effect (h : Listed w) {map : MapId} {ring : Name → Option MapId} {a b : Name}
    (hMarries : Marries w map ring a b) (hStep : w.tick map ring = some next) : a ≠ b ∧
      Effect w next (Function.update (Function.update w.spouse a (some b)) b (some a)) := by
  obtain ⟨wedding, hWedding, hTimer, hSeven, hFirst, hPresent, rfl, rfl⟩ := hMarries
  unfold World.tick at hStep
  rw [hWedding, Option.any_some, if_pos hTimer] at hStep
  obtain ⟨after, hAfter, hOrderly, -⟩ := onWedding_orderly h.orderly map ring (f := (·.tick)) fun s hs => by
    obtain ⟨later, hLater, hTicked, hLaterOrderly⟩ := tick_orderly hs
    exact ⟨later, hLater, hLaterOrderly, hTicked.outcome⟩
  rw [hStep] at hAfter
  obtain rfl := Option.some.inj hAfter
  obtain ⟨hNone, -⟩ | ⟨wedding', s, hWedding', hs, rfl⟩ := onWedding_cases hStep
  · rw [hWedding] at hNone
    cases hNone
  · rw [hWedding] at hWedding'
    obtain rfl := Option.some.inj hWedding'
    have hWeds := weds_advance (s := ⟨map, wedding, w.characters, ring⟩) hPresent hSeven hFirst
    have hTick := Scene.tick_answered (s := ⟨map, wedding, w.characters, ring⟩) hPresent hSeven hFirst
    rw [hs] at hTick
    rw [← Option.some.inj hTick] at hWeds
    exact effect_weds h hWedding hWeds hOrderly

theorem effect_load (h : Listed w) {row : Row} (hRow : w.rows.lookup c = some row)
    (hAbsent : w.characters.lookup c = none) (around : Surroundings) : Effect w (w.load c row around) w.spouse := by
  have hStandings : standings (w.load c row around).characters =
      Function.update (standings w.characters) c (some (false, row.partner)) := Table.project_insert _ _ _ _
  have hKnown : (rowPartners w.rows c).isSome = true := by
    rw [rowPartners, Table.project, hRow]
    rfl
  have hEffect := effect_standing h _ hStandings rfl hKnown h.orderly
  have hSame : current (some (false, row.partner)) (rowPartners w.rows c) = w.partner c := by
    rw [partner_eq, standings, Table.project, hAbsent]
    rfl
  rw [hSame] at hEffect
  exact ⟨hEffect.listed, hEffect.spouse.trans (Function.update_eq_self c w.spouse)⟩

theorem effect_unload (h : Listed w) (hSelf : w.characters.lookup c = some self) :
    Effect w (w.unload c self) w.spouse := by
  have hStanding : standings w.characters c = some (self.online, self.partner) := by
    rw [standings, Table.project, hSelf]
    rfl
  have hKnown := h.listed c (by rw [hStanding]; rfl)
  have hErased : standings (w.characters.erase c) = Function.update (standings w.characters) c none :=
    Table.project_erase _ _ _
  unfold World.unload
  cases hOnline : self.online with
  | true =>
      obtain ⟨row, hRow, -⟩ := Option.map_eq_some_iff.mp (Option.isSome_iff_exists.mp hKnown).choose_spec
      have hRows : rowPartners (w.rows.modify c fun _ => ⟨self.fiance, self.partner⟩) =
          Function.update (rowPartners w.rows) c (some self.partner) := by
        refine (Table.project_modify _ _ _ _).trans ?_
        rw [hRow]
        rfl
      have hOrderly := leaveMap_orderly h.orderly c self
      have hEffect := effect_update h
        { w.leaveMap c self with
          rows := w.rows.modify c fun _ => ⟨self.fiance, self.partner⟩
          characters := w.characters.erase c } hErased hRows (fun _ => h.named c hKnown) (fun _ => rfl) hOrderly
      have hSame : current none (some self.partner) = w.partner c := by
        rw [partner_eq, hStanding, hOnline]
        rfl
      rw [hSame] at hEffect
      exact ⟨hEffect.listed, hEffect.spouse.trans (Function.update_eq_self c w.spouse)⟩
  | false =>
      have hEffect := effect_standing h { w with characters := w.characters.erase c } hErased rfl hKnown h.orderly
      have hSame : current none (rowPartners w.rows c) = w.partner c := by
        rw [partner_eq, hStanding, hOnline]
        rfl
      rw [hSame] at hEffect
      exact ⟨hEffect.listed, hEffect.spouse.trans (Function.update_eq_self c w.spouse)⟩

/-- It is the loaded partner that counts from now on. -/
theorem effect_enter (h : Listed w) (hSelf : w.characters.lookup c = some self) (map : MapId) :
    Effect w (w.modifyCharacter c ({ · with online := true, map }))
      (Function.update w.spouse c ((some self.partner).filter (· ≠ ∅))) := by
  have hStandings : standings (w.modifyCharacter c ({ · with online := true, map })).characters = _ :=
    standings_modify w.characters ({ · with online := true, map }) hSelf
  have hKnown := h.listed c (by rw [standings, Table.project, hSelf]; rfl)
  exact effect_standing h _ hStandings rfl hKnown h.orderly

theorem effect_create (h : Listed w) (hValid : validName c = true) (hNew : w.rows.lookup c = none) :
    Effect w { w with rows := w.rows.insert c ⟨∅, ∅⟩ } w.spouse := by
  have hRow : rowPartners w.rows c = none := by
    rw [rowPartners, Table.project, hNew]
    rfl
  have hStanding : standings w.characters c = none := by
    by_contra hSome
    have hKnown := h.listed c (Option.isSome_iff_ne_none.mpr hSome)
    rw [hRow] at hKnown
    cases hKnown
  have hNamed : c ≠ ∅ := by
    rintro rfl
    cases hValid
  have hEffect := effect_update h { w with rows := w.rows.insert c ⟨∅, ∅⟩ }
    (Function.update_eq_self c (standings w.characters)).symm (Table.project_insert _ _ _ _) (fun _ => hNamed)
    (fun _ => rfl) h.orderly
  have hSingle : w.spouse c = none := by
    unfold World.spouse
    rw [Function.comp_apply, partner_eq, hRow, hStanding]
    rfl
  refine ⟨hEffect.listed, hEffect.spouse.trans ?_⟩
  rw [hStanding]
  exact (congrArg (Function.update w.spouse c) hSingle.symm).trans (Function.update_eq_self c w.spouse)

theorem effect_erase (h : Listed w) (c : Name) :
    Effect w { w with rows := w.rows.erase c, characters := w.characters.erase c } (Function.update w.spouse c none) := by
  have hStandings : standings (w.characters.erase c) = Function.update (standings w.characters) c none :=
    Table.project_erase _ _ _
  have hRows : rowPartners (w.rows.erase c) = Function.update (rowPartners w.rows) c none := Table.project_erase _ _ _
  exact effect_update h { w with rows := w.rows.erase c, characters := w.characters.erase c } hStandings hRows
    (by simp) (by simp) h.orderly

end Effects

section Breaks

variable {cfg : Config} {w next : World} {c : Name} {self : Character} {row : Row}

/-- The loaded partner of the character is not the one of its row any more. -/
def Stale (w : World) (c : Name) (self : Character) (row : Row) : Prop :=
  w.characters.lookup c = some self ∧ self.online = false ∧ w.rows.lookup c = some row ∧ self.partner ≠ row.partner

/-- The steps after which somebody has a partner that is not married to it. -/
def Breaks (w : World) : Event → Prop
  | .tick map ring => ∃ a b, Marries w map ring a b ∧
      ¬(w.spouse a = none ∧ w.spouse b = none ∨ w.spouse a = some b)
  | .enter c _ => ∃ self row, Stale w c self row
  | .remove c => ∃ self row, Stale w c self row ∧
      (row.partner ≠ ∅ ∨ ∃ other, w.getCharacter self.partner = some other ∧ other.partner ≠ ∅)
  | _ => False

theorem getCharacter_of_offline (hSelf : w.characters.lookup c = some self) (hOffline : self.online = false) :
    w.getCharacter c = none := by
  unfold World.getCharacter
  rw [hSelf]
  simp [Option.filter, hOffline]

theorem partner_of_offline (hSelf : w.characters.lookup c = some self) (hOffline : self.online = false)
    (hRow : w.rows.lookup c = some row) : w.partner c = some row.partner := by
  unfold World.partner
  rw [getCharacter_of_offline hSelf hOffline, hRow]
  rfl

theorem Listed.exists_row (h : Listed w) (hSelf : w.characters.lookup c = some self) :
    ∃ row, w.rows.lookup c = some row := by
  have hKnown := h.listed c (by rw [standings, Table.project, hSelf]; rfl)
  obtain ⟨partner, hPartner⟩ := Option.isSome_iff_exists.mp hKnown
  obtain ⟨row, hRow, -⟩ := Option.map_eq_some_iff.mp hPartner
  exact ⟨row, hRow⟩

/-- Somebody without a name is not there. -/
theorem Listed.absent_empty (h : Listed w) : w.getCharacter ∅ = none ∧ w.partner ∅ = none := by
  have hNone : w.partner ∅ = none := by
    by_contra hSome
    exact h.named_partner (Option.isSome_iff_ne_none.mpr hSome) rfl
  refine ⟨?_, hNone⟩
  unfold World.partner at hNone
  split at hNone
  · cases hNone
  · assumption

/-- A character is deleted that is married to nobody, as far as anybody knows. -/
theorem remove_single (h : Listed w) (hMatching : Matching w.spouse) (hNamed : c ≠ ∅) (hSpouse : w.spouse c = none)
    (hLeft : ∀ other, w.getCharacter self.partner = some other → other.partner = ∅) :
    Effect w (w.remove c self) w.spouse := by
  have hSame : Effect w (w.leavePartner c self.partner) w.spouse := by
    cases hOther : w.getCharacter self.partner with
    | none =>
        refine effect_leavePartner_same h hOther fun hPartner => ?_
        obtain ⟨-, hBack⟩ := hMatching self.partner c (spouse_of_some hPartner hNamed)
        rw [hSpouse] at hBack
        cases hBack
    | some other =>
        have hLeaves := effect_leavePartner h c self.partner (.inl (by rw [hOther]; rfl))
        refine ⟨hLeaves.listed, hLeaves.spouse.trans ?_⟩
        have hSingle : w.spouse self.partner = none :=
          spouse_of_empty ((partner_of_getCharacter hOther).trans (congrArg some (hLeft other hOther)))
        rw [← hSingle, Function.update_eq_self]
  have hErased := effect_erase hSame.listed c
  refine ⟨hErased.listed, hErased.spouse.trans ?_⟩
  rw [hSame.spouse, ← hSpouse, Function.update_eq_self]

/-- A character is deleted together with its marriage. -/
theorem remove_married (h : Listed w) (hMatching : Matching w.spouse) (hSpouse : w.spouse c = some self.partner) :
    Listed (w.remove c self) ∧ Matching (w.remove c self).spouse := by
  obtain ⟨-, hBack⟩ := hMatching c self.partner hSpouse
  have hLeft := effect_leavePartner h c self.partner (.inr (spouse_eq_some.mp hBack).1)
  have hErased := effect_erase hLeft.listed c
  refine ⟨hErased.listed, ?_⟩
  change Matching (World.spouse { w.leavePartner c self.partner with rows := _, characters := _ })
  rw [hErased.spouse, hLeft.spouse]
  exact hMatching.part hSpouse

theorem remove_matching (h : Listed w) (hMatching : Matching w.spouse) (hSelf : w.characters.lookup c = some self)
    (hOffline : self.online = false) (hGood : ¬Breaks w (.remove c)) :
    Listed (w.remove c self) ∧ Matching (w.remove c self).spouse := by
  obtain ⟨row, hRow⟩ := h.exists_row hSelf
  have hPartner := partner_of_offline hSelf hOffline hRow
  have hNamed := h.named_partner (by rw [hPartner]; rfl)
  by_cases hSame : self.partner = row.partner
  · by_cases hSingle : row.partner = ∅
    · have hEffect := remove_single h hMatching hNamed
        (spouse_of_empty (hPartner.trans (congrArg some hSingle))) fun other hOther => by
          rw [hSame, hSingle, h.absent_empty.1] at hOther
          cases hOther
      exact ⟨hEffect.listed, hEffect.spouse ▸ hMatching⟩
    · refine remove_married h hMatching ?_
      rw [hSame]
      exact spouse_of_some hPartner hSingle
  · obtain ⟨hSingle, hLeft⟩ := not_or.mp fun hBad => hGood ⟨self, row, ⟨hSelf, hOffline, hRow, hSame⟩, hBad⟩
    rw [not_not] at hSingle
    have hEffect := remove_single h hMatching hNamed
      (spouse_of_empty (hPartner.trans (congrArg some hSingle))) fun other hOther => by
        by_contra hMarried
        exact hLeft ⟨other, hOther, hMarried⟩
    exact ⟨hEffect.listed, hEffect.spouse ▸ hMatching⟩

/-- The real partner of a character that is deleted keeps it, or another marriage is ended. -/
theorem remove_breaks (h : Listed w) (hMatching : Matching w.spouse) (hStale : Stale w c self row)
    (hBad : row.partner ≠ ∅ ∨ ∃ other, w.getCharacter self.partner = some other ∧ other.partner ≠ ∅) :
    Listed (w.remove c self) ∧ ¬Matching (w.remove c self).spouse := by
  obtain ⟨hSelf, hOffline, hRow, hOther⟩ := hStale
  have hPartner := partner_of_offline hSelf hOffline hRow
  have hAbsent := getCharacter_of_offline hSelf hOffline
  -- Wherever the loaded partner is, only that one may become single.
  have hLeft : ∃ spouse, Effect w (w.leavePartner c self.partner) spouse ∧
      (∀ d, d ≠ self.partner → spouse d = w.spouse d) ∧
      ((w.getCharacter self.partner).isSome = true → spouse self.partner = none) := by
    by_cases hKnown : (w.getCharacter self.partner).isSome = true ∨ w.partner self.partner = some c
    · refine ⟨_, effect_leavePartner h c self.partner hKnown, fun d hd => Function.update_of_ne hd .., fun _ => ?_⟩
      exact Function.update_self ..
    · obtain ⟨hGone, hFree⟩ := not_or.mp hKnown
      refine ⟨_, effect_leavePartner_same h (Option.not_isSome_iff_eq_none.mp hGone) hFree, fun _ _ => rfl, ?_⟩
      exact fun hSome => absurd hSome hGone
  obtain ⟨spouse, hEffect, hSame, hEnded⟩ := hLeft
  have hErased := effect_erase hEffect.listed c
  refine ⟨hErased.listed, fun hNew => ?_⟩
  change Matching (World.spouse { w.leavePartner c self.partner with rows := _, characters := _ }) at hNew
  rw [hErased.spouse, hEffect.spouse] at hNew
  by_cases hMarried : row.partner = ∅
  · obtain ⟨other, hHere, hThird⟩ := hBad.resolve_left (not_not_intro hMarried)
    have hSingle := spouse_of_empty (hPartner.trans (congrArg some hMarried))
    have hSpouse := spouse_of_some (partner_of_getCharacter hHere) hThird
    obtain ⟨hDifferent, hBack⟩ := hMatching self.partner other.partner hSpouse
    have hc : other.partner ≠ c := by
      intro hEqual
      rw [hEqual, hSingle] at hBack
      cases hBack
    have hpc : self.partner ≠ c := by
      intro hEqual
      rw [hEqual, hAbsent] at hHere
      cases hHere
    have hLater := (hNew other.partner self.partner (by
      rw [Function.update_of_ne hc, hSame _ hDifferent.symm, hBack])).2
    rw [Function.update_of_ne hpc, hEnded (by rw [hHere]; rfl)] at hLater
    cases hLater
  · obtain ⟨hDifferent, hBack⟩ := hMatching c row.partner (spouse_of_some hPartner hMarried)
    have hLater := (hNew row.partner c (by
      rw [Function.update_of_ne hDifferent.symm, hSame _ (Ne.symm hOther), hBack])).2
    rw [Function.update_self] at hLater
    cases hLater

theorem enter_matching (h : Listed w) (hMatching : Matching w.spouse) (hSelf : w.characters.lookup c = some self)
    (hOffline : self.online = false) (map : MapId) (hGood : ¬Breaks w (.enter c map)) :
    Listed (w.modifyCharacter c ({ · with online := true, map })) ∧
      Matching (w.modifyCharacter c ({ · with online := true, map })).spouse := by
  obtain ⟨row, hRow⟩ := h.exists_row hSelf
  have hEffect := effect_enter h hSelf map
  have hFresh : self.partner = row.partner := by
    by_contra hOther
    exact hGood ⟨self, row, hSelf, hOffline, hRow, hOther⟩
  refine ⟨hEffect.listed, ?_⟩
  rw [hEffect.spouse, hFresh, ← partner_of_offline hSelf hOffline hRow]
  show Matching (Function.update w.spouse c (w.spouse c))
  rw [Function.update_eq_self]
  exact hMatching

theorem enter_breaks (h : Listed w) (hMatching : Matching w.spouse) (hStale : Stale w c self row) (map : MapId) :
    Listed (w.modifyCharacter c ({ · with online := true, map })) ∧
      ¬Matching (w.modifyCharacter c ({ · with online := true, map })).spouse := by
  obtain ⟨hSelf, hOffline, hRow, hOther⟩ := hStale
  have hEffect := effect_enter h hSelf map
  refine ⟨hEffect.listed, ?_⟩
  rw [hEffect.spouse]
  refine hMatching.not_update fun hEqual => hOther ?_
  have hPartner := partner_of_offline hSelf hOffline hRow
  have hSpouse : w.spouse c = (some row.partner).filter (· ≠ ∅) := by
    unfold World.spouse
    rw [Function.comp_apply, hPartner]
  rw [hSpouse] at hEqual
  by_cases hEmpty : self.partner = ∅
  · rw [hEmpty] at hEqual ⊢
    by_contra hNamed
    rw [filter_named (Ne.symm hNamed)] at hEqual
    cases hEqual
  · rw [filter_named hEmpty] at hEqual
    exact (Option.some.inj (Option.filter_eq_some_iff.mp hEqual.symm).1).symm

theorem tick_matching (h : Listed w) (hMatching : Matching w.spouse) {map : MapId} {ring : Name → Option MapId}
    (hGood : ¬Breaks w (.tick map ring)) (hStep : w.tick map ring = some next) :
    Listed next ∧ Matching next.spouse := by
  obtain hEffect | ⟨a, b, hMarries, hDifferent, hEffect⟩ := tick_effect h hStep
  · exact ⟨hEffect.listed, hEffect.spouse ▸ hMatching⟩
  · refine ⟨hEffect.listed, ?_⟩
    rw [hEffect.spouse]
    have hFree : w.spouse a = none ∧ w.spouse b = none ∨ w.spouse a = some b := by
      by_contra hTaken
      exact hGood ⟨a, b, hMarries, hTaken⟩
    obtain ⟨ha, hb⟩ | hAlready := hFree
    · exact hMatching.join ha hb hDifferent
    · obtain ⟨-, hBack⟩ := hMatching a b hAlready
      rw [← hAlready, Function.update_eq_self, ← hBack, Function.update_eq_self]
      exact hMatching

theorem tick_breaks (h : Listed w) (hMatching : Matching w.spouse) {map : MapId} {ring : Name → Option MapId}
    (hBad : Breaks w (.tick map ring)) (hStep : w.tick map ring = some next) :
    Listed next ∧ ¬Matching next.spouse := by
  obtain ⟨a, b, hMarries, hTaken⟩ := hBad
  obtain ⟨hDifferent, hEffect⟩ := marries_effect h hMarries hStep
  refine ⟨hEffect.listed, ?_⟩
  rw [hEffect.spouse]
  obtain ⟨hSingle, hOther⟩ := not_or.mp hTaken
  cases ha : w.spouse a with
  | some c => exact hMatching.not_join ha (fun hc => hOther (hc ▸ ha)) hDifferent
  | none =>
      obtain ⟨c, hb⟩ := Option.ne_none_iff_exists'.mp fun hb => hSingle ⟨ha, hb⟩
      rw [Function.update_comm hDifferent]
      refine hMatching.not_join hb (fun hc => ?_) hDifferent.symm
      subst hc
      rw [(hMatching b c hb).2] at ha
      cases ha

/-- Where the state can be entered again, the steps that do not break a marriage keep all of them. -/
theorem step_matching (h : Listed w) (hMatching : Matching w.spouse) {event : Event} (hGood : ¬Breaks w event)
    (hStep : step cfg w event = some next) : Listed next ∧ Matching next.spouse := by
  have hEffect : Effect w next w.spouse → Listed next ∧ Matching next.spouse :=
    fun hSame => ⟨hSame.listed, hSame.spouse ▸ hMatching⟩
  cases event with
  | lawOpen c =>
      obtain ⟨self, -, rfl⟩ := Option.map_eq_some_iff.mp hStep
      exact hEffect (effect_modifyCharacter_same h c fun _ => ⟨rfl, rfl⟩)
  | marriageRequest c type name =>
      obtain ⟨self, hSelf, rfl⟩ := Option.map_eq_some_iff.mp hStep
      exact marriageRequest_matching h hMatching hSelf type name
  | priestOpen c =>
      obtain ⟨self, -, rfl⟩ := Option.map_eq_some_iff.mp hStep
      exact hEffect (effect_priestOpen h c self)
  | priestRequest c name =>
      obtain ⟨self, -, hRequest⟩ := Option.bind_eq_some_iff.mp hStep
      exact hEffect (effect_priestRequest h hRequest)
  | priestAccept c =>
      obtain ⟨self, -, hAccept⟩ := Option.bind_eq_some_iff.mp hStep
      exact hEffect (effect_priestAccept h hAccept)
  | priestUse c =>
      obtain ⟨self, -, hUse⟩ := Option.bind_eq_some_iff.mp hStep
      exact hEffect (effect_priestUse h hUse)
  | tick map ring => exact tick_matching h hMatching hGood hStep
  | walk c =>
      obtain ⟨self, -, rfl⟩ := Option.map_eq_some_iff.mp hStep
      exact hEffect (effect_modifyCharacter_same h c fun _ => ⟨rfl, rfl⟩)
  | warp c map =>
      obtain ⟨self, -, rfl⟩ := Option.map_eq_some_iff.mp hStep
      have hLeft : Effect w (w.leaveMap c self) w.spouse :=
        effect_modifyWedding h self.map fun _ hWedding => hWedding.congr _ _ _ _
      have hWarped := effect_modifyCharacter_same hLeft.listed c (f := ({ · with map, npcType := .npc }))
        fun _ => ⟨rfl, rfl⟩
      exact hEffect ⟨hWarped.listed, hWarped.spouse.trans hLeft.spouse⟩
  | surroundings c around =>
      obtain ⟨self, -, rfl⟩ := Option.map_eq_some_iff.mp hStep
      exact hEffect (effect_modifyCharacter_same h c fun _ => ⟨rfl, rfl⟩)
  | priest map present =>
      obtain rfl := Option.some.inj hStep
      exact hEffect (effect_modifyWedding h map fun _ hWedding => hWedding.congr _ _ _ _)
  | load c around =>
      dsimp only [step] at hStep
      split at hStep
      case h_1 row hAbsent hRow =>
        obtain rfl := Option.some.inj hStep
        exact hEffect (effect_load h hRow hAbsent around)
      case h_2 => cases hStep
  | enter c map =>
      dsimp only [step] at hStep
      split at hStep
      case h_1 self hSelf =>
        split at hStep
        · cases hStep
        case isFalse hOffline =>
          obtain rfl := Option.some.inj hStep
          exact enter_matching h hMatching hSelf (eq_false_of_ne_true hOffline) map hGood
      case h_2 => cases hStep
  | leave c =>
      obtain ⟨self, hSelf, rfl⟩ := Option.map_eq_some_iff.mp hStep
      exact hEffect (effect_unload h hSelf)
  | create c =>
      dsimp only [step] at hStep
      split at hStep
      case isTrue hNew =>
        obtain rfl := Option.some.inj hStep
        exact hEffect (effect_create h hNew.1 (Option.isNone_iff_eq_none.mp hNew.2))
      case isFalse => cases hStep
  | remove c =>
      dsimp only [step] at hStep
      split at hStep
      case h_1 self hSelf =>
        split at hStep
        · cases hStep
        case isFalse hOffline =>
          obtain rfl := Option.some.inj hStep
          exact remove_matching h hMatching hSelf (eq_false_of_ne_true hOffline) hGood
      case h_2 => cases hStep

theorem step_breaks (h : Listed w) (hMatching : Matching w.spouse) {event : Event} (hBad : Breaks w event)
    (hStep : step cfg w event = some next) : Listed next ∧ ¬Matching next.spouse := by
  cases event with
  | tick map ring => exact tick_breaks h hMatching hBad hStep
  | enter c map =>
      obtain ⟨self, row, hStale⟩ := hBad
      dsimp only [step] at hStep
      rw [hStale.1] at hStep
      dsimp only at hStep
      rw [hStale.2.1] at hStep
      obtain rfl := Option.some.inj hStep
      exact enter_breaks h hMatching hStale map
  | remove c =>
      obtain ⟨self, row, hStale, hLost⟩ := hBad
      dsimp only [step] at hStep
      rw [hStale.1] at hStep
      dsimp only at hStep
      rw [hStale.2.1] at hStep
      obtain rfl := Option.some.inj hStep
      exact remove_breaks h hMatching hStale hLost
  | _ => exact absurd hBad id

end Breaks

section Starts

variable {cfg : Config} {w next : World} {c : Name} {self : Character}

/-- A wedding of these two starts. -/
def Starts (w next : World) (map : MapId) (a b : Name) : Prop :=
  ∃ before after, w.weddings.lookup map = some before ∧ next.weddings.lookup map = some after ∧
    before.state = 0 ∧ after.state ≠ 0 ∧ after.partner1 = a ∧ after.partner2 = b

/-- Both are unmarried and engaged to each other, and one has asked the other. -/
structure Consent (w : World) (map : MapId) (a b : Name) : Prop where
  unmarried : w.partner a = some ∅ ∧ w.partner b = some ∅
  engaged : w.fiance a = some b ∧ w.fiance b = some a
  asked : ∃ wedding, w.weddings.lookup map = some wedding ∧ ((a, b) ∈ wedding.asked ∨ (b, a) ∈ wedding.asked)

/-- A wedding that starts in this step is one with consent. -/
def Consented (cfg : Config) (w : World) (event : Event) : Prop :=
  ∀ next map a b, step cfg w event = some next → Starts w next map a b → Consent w map a b

/-- No wedding starts where none of them changes its state. -/
def Idle (w next : World) : Prop :=
  ∀ map before after, w.weddings.lookup map = some before → next.weddings.lookup map = some after →
    before.state = 0 → after.state = 0

theorem Idle.not_starts (h : Idle w next) {map : MapId} {a b : Name} : ¬Starts w next map a b := by
  rintro ⟨before, after, hBefore, hAfter, hIdle, hBusy, -⟩
  exact hBusy (h map before after hBefore hAfter hIdle)

theorem idle_of_weddings (h : next.weddings = w.weddings) : Idle w next := by
  intro map before after hBefore hAfter hIdle
  rw [h, hBefore] at hAfter
  exact Option.some.inj hAfter ▸ hIdle

theorem idle_modifyWedding (map : MapId) {f : Wedding → Wedding} (hf : ∀ wedding, (f wedding).state = wedding.state) :
    Idle w (w.modifyWedding map f) := fun other before after hBefore hAfter hIdle =>
  (modifyWedding_state map hf other before after hBefore hAfter).trans hIdle

theorem idle_onWedding {map : MapId} {ring : Name → Option MapId} {f : Scene → Option Scene}
    (hf : ∀ s later : Scene, s.wedding.state = 0 → f s = some later → later.wedding.state = 0)
    (hStep : w.onWedding map ring f = some next) : Idle w next := by
  obtain ⟨-, rfl⟩ | ⟨wedding, s, hWedding, hs, rfl⟩ := onWedding_cases hStep
  · exact idle_of_weddings rfl
  · intro other before after hBefore hAfter hIdle
    change (w.weddings.insert map s.wedding).lookup other = some after at hAfter
    rw [Table.lookup_insert_eq] at hAfter
    split at hAfter
    case isTrue hOther =>
      subst hOther
      rw [hWedding] at hBefore
      obtain rfl := Option.some.inj hBefore
      obtain rfl := Option.some.inj hAfter
      exact hf _ s hIdle hs
    case isFalse =>
      rw [hBefore] at hAfter
      exact Option.some.inj hAfter ▸ hIdle

theorem iDo_idle (s later : Scene) (c : Name) (map : MapId) (hIdle : s.wedding.state = 0)
    (h : s.iDo c map = some later) : later.wedding.state = 0 := by
  have hNobody : ∀ required, required = 0 ∨ s.wedding.state ≠ required := by
    intro required
    rw [hIdle]
    exact (eq_or_ne required 0).imp_right Ne.symm
  unfold Scene.iDo at h
  dsimp only at h
  rw [if_pos (hNobody _)] at h
  exact Option.some.inj h ▸ hIdle

theorem leavePartner_weddings (w : World) (c name : Name) : (w.leavePartner c name).weddings = w.weddings := by
  unfold World.leavePartner
  split
  · rfl
  · rfl

theorem marriageRequest_weddings (w : World) (type : Nat) (name : Name) :
    (w.marriageRequest cfg c self type name).weddings = w.weddings := by
  have hApprove : (w.approve cfg c self name).weddings = w.weddings := by
    unfold World.approve
    repeat' split
    all_goals rfl
  have hDivorce : (w.divorce cfg c self name).weddings = w.weddings := by
    unfold World.divorce
    repeat' split
    all_goals first | rfl | exact leavePartner_weddings w c name
  unfold World.marriageRequest
  repeat' split
  all_goals first | rfl | assumption

/-- A wedding starts where the priest is asked to, and nowhere else. -/
theorem step_idle {event : Event} (hOther : ∀ c, event ≠ .priestAccept c) (hStep : step cfg w event = some next) :
    Idle w next := by
  cases event with
  | priestAccept c => exact absurd rfl (hOther c)
  | lawOpen c =>
      obtain ⟨self, -, rfl⟩ := Option.map_eq_some_iff.mp hStep
      exact idle_of_weddings rfl
  | marriageRequest c type name =>
      obtain ⟨self, -, rfl⟩ := Option.map_eq_some_iff.mp hStep
      exact idle_of_weddings (marriageRequest_weddings w type name)
  | priestOpen c =>
      obtain ⟨self, -, rfl⟩ := Option.map_eq_some_iff.mp hStep
      refine idle_of_weddings ?_
      unfold World.priestOpen
      repeat' split
      all_goals rfl
  | priestRequest c name =>
      obtain ⟨self, -, hRequest⟩ := Option.bind_eq_some_iff.mp hStep
      rcases priestRequest_cases hRequest with rfl | rfl
      · exact idle_of_weddings rfl
      · exact idle_modifyWedding self.map fun _ => rfl
  | priestUse c =>
      obtain ⟨self, -, hUse⟩ := Option.bind_eq_some_iff.mp hStep
      exact idle_onWedding (fun s later hIdle => iDo_idle s later c self.map hIdle) hUse
  | tick map ring =>
      change w.tick map ring = some next at hStep
      unfold World.tick at hStep
      split at hStep
      · refine idle_onWedding (fun s later hIdle hTick => ?_) hStep
        rw [Scene.tick_idle hIdle] at hTick
        exact Option.some.inj hTick ▸ hIdle
      · exact idle_of_weddings (congrArg World.weddings (Option.some.inj hStep).symm)
  | walk c =>
      obtain ⟨self, -, rfl⟩ := Option.map_eq_some_iff.mp hStep
      exact idle_of_weddings rfl
  | warp c map =>
      obtain ⟨self, -, rfl⟩ := Option.map_eq_some_iff.mp hStep
      exact idle_modifyWedding (f := (·.cancelWeddingRequest c)) self.map fun _ => rfl
  | surroundings c around =>
      obtain ⟨self, -, rfl⟩ := Option.map_eq_some_iff.mp hStep
      exact idle_of_weddings rfl
  | priest map present =>
      obtain rfl := Option.some.inj hStep
      exact idle_modifyWedding map fun _ => rfl
  | load c around =>
      dsimp only [step] at hStep
      split at hStep
      · obtain rfl := Option.some.inj hStep
        exact idle_of_weddings rfl
      · cases hStep
  | enter c map =>
      dsimp only [step] at hStep
      split at hStep
      · split at hStep
        · cases hStep
        · obtain rfl := Option.some.inj hStep
          exact idle_of_weddings rfl
      · cases hStep
  | leave c =>
      obtain ⟨self, -, rfl⟩ := Option.map_eq_some_iff.mp hStep
      unfold World.unload
      split
      · exact idle_modifyWedding (f := (·.cancelWeddingRequest c)) self.map fun _ => rfl
      · exact idle_of_weddings rfl
  | create c =>
      dsimp only [step] at hStep
      split at hStep
      · obtain rfl := Option.some.inj hStep
        exact idle_of_weddings rfl
      · cases hStep
  | remove c =>
      dsimp only [step] at hStep
      split at hStep
      · split at hStep
        · cases hStep
        · obtain rfl := Option.some.inj hStep
          exact idle_of_weddings (leavePartner_weddings w c _)
      · cases hStep

/-- `Priest_Accept` finds a priest who is free, and a fiance who is near and has asked for a wedding. -/
structure Admitted (w : World) (c : Name) (player : Character) (wedding : Wedding) (partner : Character) :
    Prop where
  here : w.getCharacter c = some player
  unmarried : player.partner = ∅
  isWedding : w.weddings.lookup player.map = some wedding
  idle : wedding.state = 0
  priest : wedding.priest = true
  isPartner : w.getCharacter player.fiance = some partner
  near : partner.map = player.map
  requested : player.fiance ∈ wedding.requests

variable {wedding : Wedding} {partner : Character}

theorem getCharacter_of_near {name : Name} {map : MapId} {ring : Name → Option MapId}
    (hPartner : w.getCharacter name = some partner) (hMap : partner.map = map) :
    Scene.getCharacter ⟨map, wedding, w.characters, ring⟩ name = some partner := by
  obtain ⟨hLookup, hOnline⟩ := standing_of_getCharacter hPartner
  unfold Scene.getCharacter
  rw [hLookup]
  simp [Option.filter, hOnline, hMap]

theorem Admitted.starts (h : Admitted w c self wedding partner) :
    ∃ next, step cfg w (.priestAccept c) = some next ∧ Starts w next self.map self.fiance c := by
  let s : Scene := ⟨self.map, wedding, w.characters, fun _ => none⟩
  have hPresent : (s.named self.fiance c).Present := by
    refine ⟨?_, ?_, h.priest⟩
    · exact Option.isSome_iff_exists.mpr ⟨partner, getCharacter_of_near h.isPartner h.near⟩
    · exact Option.isSome_iff_exists.mpr ⟨self, getCharacter_of_near h.here rfl⟩
  have hStart : s.startWedding self.fiance c = _ := startWedding_eq h.idle self.fiance c
  rw [if_pos hPresent] at hStart
  let started := ((s.named self.fiance c).enter 1).counted.startTimer
  refine ⟨{ w with weddings := w.weddings.insert self.map started.wedding, characters := started.characters }, ?_,
    wedding, started.wedding, h.isWedding, AList.lookup_insert _, h.idle, Nat.one_ne_zero, rfl, rfl⟩
  show (w.getCharacter c).bind _ = _
  rw [h.here, Option.bind_some]
  unfold World.priestAccept
  rw [if_neg (not_not_intro h.unmarried), h.isWedding, h.isPartner]
  dsimp only
  rw [if_neg (not_not_intro h.near), if_pos h.requested]
  unfold World.onWedding
  rw [h.isWedding]
  change (((s.startWedding self.fiance c).map (·.2)).bind fun _ => _) = _
  rw [hStart]
  rfl

theorem admitted_of_starts {map : MapId} {a b : Name} (hStep : step cfg w (.priestAccept c) = some next)
    (hStarts : Starts w next map a b) :
    ∃ self wedding partner, Admitted w c self wedding partner ∧ map = self.map ∧ a = self.fiance ∧ b = c := by
  obtain ⟨self, hSelf, hAccept⟩ := Option.bind_eq_some_iff.mp hStep
  have hNothing : some w = some next → False := by
    intro hSame
    obtain rfl := Option.some.inj hSame
    exact (idle_of_weddings rfl).not_starts hStarts
  unfold World.priestAccept at hAccept
  split at hAccept
  · exact (hNothing hAccept).elim
  case isFalse hUnmarried =>
    split at hAccept
    case h_2 => exact (hNothing hAccept).elim
    case h_1 wedding partner hWedding hPartner =>
      split at hAccept
      · exact (hNothing hAccept).elim
      case isFalse hNear =>
        split at hAccept
        case isFalse => exact (hNothing hAccept).elim
        case isTrue hRequested =>
          obtain ⟨hNone, -⟩ | ⟨wedding', s, hWedding', hs, rfl⟩ := onWedding_cases hAccept
          · rw [hWedding] at hNone
            cases hNone
          rw [hWedding] at hWedding'
          obtain rfl := Option.some.inj hWedding'
          obtain ⟨before, after, hBefore, hAfter, hIdle, hBusy, rfl, rfl⟩ := hStarts
          change (w.weddings.insert self.map s.wedding).lookup map = some after at hAfter
          rw [Table.lookup_insert_eq] at hAfter
          split at hAfter
          case isFalse =>
            rw [hBefore] at hAfter
            exact absurd (Option.some.inj hAfter ▸ hIdle) hBusy
          case isTrue hMap =>
            subst hMap
            rw [hWedding] at hBefore
            obtain rfl := Option.some.inj hBefore
            obtain rfl := Option.some.inj hAfter
            rw [startWedding_eq (by exact hIdle)] at hs
            obtain rfl := Option.some.inj hs
            split at hBusy
            case isFalse => exact absurd rfl hBusy
            case isTrue hPresent =>
              refine ⟨self, wedding, partner, ?_, rfl, ?_, ?_⟩
              · exact ⟨hSelf, not_not.mp hUnmarried, hWedding, hIdle, hPresent.2.2, hPartner, not_not.mp hNear,
                  hRequested⟩
              · rw [if_pos hPresent]
                rfl
              · rw [if_pos hPresent]
                rfl

/-- Where somebody is admitted, its fiance consents. -/
def Willing (c : Name) (self : Character) (wedding : Wedding) (partner : Character) : Prop :=
  partner.partner = ∅ ∧ partner.fiance = c ∧ ((self.fiance, c) ∈ wedding.asked ∨ (c, self.fiance) ∈ wedding.asked)

/-- `Priest_Accept` starts a wedding with somebody who is married, or engaged to another one, or has
asked somebody else. -/
def Unasked (w : World) : Event → Prop
  | .priestAccept c => ∃ self wedding partner, Admitted w c self wedding partner ∧ ¬Willing c self wedding partner
  | _ => False

theorem Admitted.consent_iff (h : Admitted w c self wedding partner) :
    Consent w self.map self.fiance c ↔ Willing c self wedding partner := by
  have hFiance : ∀ {name : Name} {other : Character}, w.getCharacter name = some other →
      w.fiance name = some other.fiance := by
    intro name other hOther
    unfold World.fiance
    rw [hOther]
    rfl
  constructor
  · rintro ⟨⟨hSingle, -⟩, ⟨hEngaged, -⟩, other, hOther, hAsked⟩
    rw [partner_of_getCharacter h.isPartner] at hSingle
    rw [hFiance h.isPartner] at hEngaged
    rw [h.isWedding] at hOther
    obtain rfl := Option.some.inj hOther
    exact ⟨Option.some.inj hSingle, Option.some.inj hEngaged, hAsked⟩
  · rintro ⟨hSingle, hEngaged, hAsked⟩
    refine ⟨⟨?_, ?_⟩, ⟨?_, ?_⟩, wedding, h.isWedding, hAsked⟩
    · rw [partner_of_getCharacter h.isPartner, hSingle]
    · rw [partner_of_getCharacter h.here, h.unmarried]
    · rw [hFiance h.isPartner, hEngaged]
    · exact hFiance h.here

theorem consented_iff {event : Event} : Consented cfg w event ↔ ¬Unasked w event := by
  by_cases hAccept : ∃ c, event = .priestAccept c
  · obtain ⟨c, rfl⟩ := hAccept
    constructor
    · rintro hConsented ⟨self, wedding, partner, hAdmitted, hUnwilling⟩
      obtain ⟨next, hStep, hStarts⟩ := hAdmitted.starts
      exact hUnwilling (hAdmitted.consent_iff.mp (hConsented next _ _ _ hStep hStarts))
    · intro hAsked next map a b hStep hStarts
      obtain ⟨self, wedding, partner, hAdmitted, rfl, rfl, rfl⟩ := admitted_of_starts hStep hStarts
      refine hAdmitted.consent_iff.mpr ?_
      by_contra hUnwilling
      exact hAsked ⟨self, wedding, partner, hAdmitted, hUnwilling⟩
  · have hOther : ∀ c, event ≠ .priestAccept c := fun c hEvent => hAccept ⟨c, hEvent⟩
    refine iff_of_true (fun next map a b hStep hStarts => ?_) ?_
    · exact absurd hStarts (step_idle hOther hStep).not_starts
    · cases event with
      | priestAccept c => exact absurd rfl (hOther c)
      | _ => exact id

end Starts

section Reachable

/-- Rows in which partners are each other's. -/
def Couples (rows : Table Name Row) : Prop :=
  ∀ a row, rows.lookup a = some row → a ≠ ∅ ∧
    (row.partner ≠ ∅ → a ≠ row.partner ∧ ∃ other, rows.lookup row.partner = some other ∧ other.partner = a)

/-- Nobody is loaded, and no wedding has started. -/
def World.start (rows : Table Name Row) (weddings : Table MapId Wedding) : World := World.loaded ⟨∅, weddings, rows⟩

variable {rows : Table Name Row}

theorem partner_start (rows : Table Name Row) (weddings : Table MapId Wedding) :
    (World.start rows weddings).partner = rowPartners rows := by
  funext c
  rw [partner_eq]
  rfl

theorem listed_start (h : Couples rows) (weddings : Table MapId Wedding) : Listed (.start rows weddings) where
  named c hSome := by
    obtain ⟨partner, hPartner⟩ := Option.isSome_iff_exists.mp hSome
    obtain ⟨row, hRow, -⟩ := Option.map_eq_some_iff.mp hPartner
    exact (h c row hRow).1
  listed _ hSome := by cases hSome
  orderly := loaded_orderly _

theorem symmetric_start (h : Couples rows) (weddings : Table MapId Wedding) : Symmetric (.start rows weddings) := by
  intro a b hPartner hb
  rw [partner_start] at hPartner ⊢
  obtain ⟨row, hRow, rfl⟩ := Option.map_eq_some_iff.mp hPartner
  obtain ⟨hDifferent, other, hOther, rfl⟩ := (h a row hRow).2 hb
  exact ⟨hDifferent, Option.map_eq_some_iff.mpr ⟨other, hOther, rfl⟩⟩

structure Paired (w : World) : Prop extends Listed w where
  matching : Matching w.spouse

-- Ann and Bob are engaged, and so is Carl to Ann.
def ann : Name := .of [97, 110, 110, 97]
def bob : Name := .of [98, 111, 98, 98]
def carl : Name := .of [99, 97, 114, 108]

def town : Table Name Row :=
  (((∅ : Table Name Row).insert ann ⟨bob, ∅⟩).insert bob ⟨ann, ∅⟩).insert carl ⟨ann, ∅⟩

def church : Table MapId Wedding := (∅ : Table MapId Wedding).insert 1 (.load true)

/-- Ann asks Bob, who is there, and Carl accepts. -/
def intrusion : List Event :=
  let around : Surroundings := ⟨0, true, 20⟩
  [.load ann around, .enter ann 1, .load bob around, .enter bob 1, .load carl around, .enter carl 1,
    .priestOpen ann, .priestRequest ann bob, .priestAccept carl]

theorem couples_town : Couples town := by
  intro a row hRow
  have hKnown : a = carl ∧ row = ⟨ann, ∅⟩ ∨ a = bob ∧ row = ⟨ann, ∅⟩ ∨ a = ann ∧ row = ⟨bob, ∅⟩ := by
    unfold town at hRow
    simp only [Table.lookup_insert_eq] at hRow
    split at hRow
    · exact .inl ⟨‹_›, (Option.some.inj hRow).symm⟩
    · split at hRow
      · exact .inr (.inl ⟨‹_›, (Option.some.inj hRow).symm⟩)
      · split at hRow
        · exact .inr (.inr ⟨‹_›, (Option.some.inj hRow).symm⟩)
        · cases hRow
  rcases hKnown with ⟨rfl, rfl⟩ | ⟨rfl, rfl⟩ | ⟨rfl, rfl⟩
  all_goals exact ⟨by decide, fun hPartner => absurd rfl hPartner⟩

end Reachable

end Etheos.Weddings
