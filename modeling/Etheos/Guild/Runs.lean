import Etheos.Guild.Steps

/-! Membership along the runs of the guild handlers. -/
namespace Etheos.Guilds

open General

/-- What is stored about every character in the world agrees: it is listed once
by its own guild, with its own rank, and not at all by another guild. -/
structure Consistent (w : World) : Prop where
  own : ∀ c self tag, w.getCharacterReal c = some self → self.guild = some tag →
    ∃ guild, w.cache.lookup tag = some guild ∧
      guild.members.filter (·.name = c) = [⟨c, self.guildRank⟩]
  other : ∀ c self tag guild, w.getCharacterReal c = some self → self.guild ≠ some tag →
    w.cache.lookup tag = some guild → ∀ member ∈ guild.members, member.name ≠ c

/-- A guild is created with somebody who is in another one by now, or with
somebody twice; `guildrank` becomes a rank that the guild does not know; or a
guild is read from the database when that is out of date. -/
def Upsets (cfg : Config) (w : World) : Event → Prop
  | .create c tag name description => ∃ self ∈ w.getCharacterReal c,
      ∃ create ∈ w.created cfg c self tag name description,
        ¬(w.Unattached create.members ∧ w.Readable create.tag)
  | .guildrank c value => ∃ self ∈ w.getCharacterReal c,
      self.guild ≠ none ∧ max 0 (min 9 value) ≠ self.guildRank
  | .load c _ => ∃ row ∈ w.characterRows.lookup c, ∃ tag ∈ row.guild,
      w.cache.lookup tag = none ∧ (w.guildRows.lookup tag).isSome ∧ ¬w.Readable tag
  | _ => False

instance (cfg : Config) (w : World) (event : Event) : Decidable (Upsets cfg w event) := by
  cases event <;> unfold Upsets <;> infer_instance

variable {w : World}

theorem consistent_of_agrees (h : w.register.Agrees) : Consistent w where
  own c self tag hReal hGuild := by
    obtain ⟨hSelf, _⟩ := World.getCharacterReal_eq_some.mp hReal
    have hPerson : w.register.people c = some self.person := congrArg (Option.map _) hSelf
    have hPlace : self.person.place = some (tag, self.guildRank) := congrArg (Option.map _) hGuild
    have hOpen := h.opened c self.person tag self.guildRank hPerson hPlace
    obtain ⟨guild, hCached⟩ := Option.isSome_iff_exists.mp (Option.isSome_map.symm.trans hOpen)
    refine ⟨guild, hCached, ?_⟩
    have hListed := (h.fits c tag guild.members (World.register_rolls hCached)).person _ hPerson
    rwa [hPlace, Place.entries_own] at hListed
  other c self tag guild hReal hGuild hCached member hMember := by
    rintro rfl
    obtain ⟨hSelf, _⟩ := World.getCharacterReal_eq_some.mp hReal
    have hFits := h.fits member.name tag guild.members (World.register_rolls hCached)
    have hListed := hFits.person self.person (congrArg (Option.map _) hSelf)
    exact listed_ne_nil hMember (hListed.trans (entries_of_ne hGuild ..))

/-- Every step but these keeps the register. -/
theorem agrees_step (cfg : Config) (w : World) (event : Event) (next : World) (h : w.register.Agrees)
    (hGood : ¬Upsets cfg w event) (hStep : step cfg w event = some next) :
    next.register.Agrees := by
  cases event with
  | request c tag name =>
      obtain ⟨self, _, rfl⟩ := Option.map_eq_some_iff.mp hStep
      exact World.agrees_guildRequest h tag name
  | accept c =>
      obtain ⟨self, _, rfl⟩ := Option.map_eq_some_iff.mp hStep
      exact World.agrees_guildAccept h
  | create c tag name description =>
      obtain ⟨self, hSelf, rfl⟩ := Option.map_eq_some_iff.mp hStep
      refine World.agrees_guildCreate h fun create hCreated => ?_
      exact Decidable.of_not_not fun hBad => hGood ⟨self, hSelf, create, hCreated, hBad⟩
  | player c tag recruiterName =>
      obtain ⟨self, _, rfl⟩ := Option.map_eq_some_iff.mp hStep
      exact World.agrees_guildPlayer h tag recruiterName
  | use c joiner =>
      obtain ⟨self, _, rfl⟩ := Option.map_eq_some_iff.mp hStep
      exact World.agrees_guildUse h joiner
  | remove c =>
      obtain ⟨self, hSelf, rfl⟩ := Option.map_eq_some_iff.mp hStep
      exact World.agrees_guildRemove h hSelf
  | kick c name =>
      obtain ⟨self, _, rfl⟩ := Option.map_eq_some_iff.mp hStep
      exact World.agrees_guildKick h name
  | junk c =>
      obtain ⟨self, _, rfl⟩ := Option.map_eq_some_iff.mp hStep
      exact World.agrees_guildJunk h
  | rank c rank name =>
      obtain ⟨self, _, hNext⟩ := Option.bind_eq_some_iff.mp hStep
      exact World.agrees_guildRank h hNext
  | buy c gold =>
      obtain ⟨self, _, rfl⟩ := Option.map_eq_some_iff.mp hStep
      exact World.agrees_guildBuy h gold
  | guildrank c value =>
      obtain ⟨self, hSelf, rfl⟩ := Option.map_eq_some_iff.mp hStep
      refine World.agrees_modifyCharacter h fun other hOther => ?_
      rw [(World.getCharacterReal_eq_some.mp hSelf).1] at hOther
      obtain rfl := Option.some.inj hOther
      refine congrArg (Person.mk self.online) ?_
      unfold Character.place
      cases hGuild : self.guild with
      | none => rfl
      | some tag =>
          have hSame : max 0 (min 9 value) = self.guildRank := Decidable.of_not_not fun hRank =>
            hGood ⟨self, hSelf, by simp [hGuild], hRank⟩
          rw [hSame]
  | load c around =>
      unfold step at hStep
      dsimp only at hStep
      split at hStep
      next row hAbsent hRow =>
        cases hStep
        refine World.agrees_load h hAbsent hRow (fun tag hTag hClosed hExists => ?_) around
        exact Decidable.of_not_not fun hBad =>
          hGood ⟨row, hRow, tag, hTag, hClosed, hExists, hBad⟩
      · cases hStep
  | enter c =>
      obtain ⟨self, hSelf, rfl⟩ := Option.map_eq_some_iff.mp hStep
      exact World.agrees_enter h hSelf
  | leave c =>
      obtain ⟨self, hSelf, rfl⟩ := Option.map_eq_some_iff.mp hStep
      exact World.agrees_unload h hSelf
  | timedSave =>
      obtain rfl := Option.some.inj hStep
      exact World.agrees_timedSave h
  | warp c around =>
      obtain ⟨self, _, rfl⟩ := Option.map_eq_some_iff.mp hStep
      exact World.agrees_modifyCharacter h fun _ _ => rfl
  | surroundings c around =>
      obtain ⟨self, _, rfl⟩ := Option.map_eq_some_iff.mp hStep
      exact World.agrees_modifyCharacter h fun _ _ => rfl

/-- Nothing is in memory yet. -/
theorem agrees_start (characterRows : Table Name CharacterRow) (guildRows : Table Tag GuildRow) :
    (World.start characterRows guildRows).register.Agrees where
  fits _ _ _ hRoll := by cases hRoll
  opened _ _ _ _ hPerson := by cases hPerson

section Samples

/-- A guild costs nothing, and its leader needs one other member. -/
def smallConfig : Config :=
  ⟨0, 0, 10, 2, 1000, 0, 1, 1, 1, 1, 2, 0, true, 20, 100⟩

def ann : Name := .of [97]

def bob : Name := .of [98]

def eve : Name := .of [101]

/-- The tag `OLD` of the guild that Bob leads, and the tag `NEW`. -/
def oldTag : Bytes := [79, 76, 68]

def newTag : Bytes := [78, 69, 87]

/-- The name of the new guild. -/
def newName : Bytes := [110, 101, 119, 101, 114]

/-- In front of the guild master. -/
def hall : Surroundings := ⟨1, false, true, false, true, 0⟩

def smallRows : Table Name CharacterRow :=
  (((∅ : Table Name CharacterRow).insert ann ⟨none, 0⟩).insert bob ⟨some (.of oldTag), 0⟩).insert
    eve ⟨none, 0⟩

def smallGuilds : Table Tag GuildRow :=
  (∅ : Table Tag GuildRow).insert (.of oldTag) ⟨.of [111, 108, 100], 0⟩

def arrivals : List Event :=
  [.load ann hall, .enter ann, .load bob hall, .enter bob, .load eve hall, .enter eve]

/-- Eve joins the guild of Bob and leaves it, and then she joins that of Ann. -/
def orderly : List Event := arrivals ++
  [.player eve oldTag [98], .use bob eve, .rank bob 2 [101], .remove eve,
    .request ann newTag newName, .accept eve, .create ann newTag newName [], .guildrank eve 9]

/-- Eve accepts the invitation of Ann first, and joins the guild of Bob before
that of Ann is created. -/
def twofold : List Event := arrivals ++
  [.request ann newTag newName, .accept eve, .player eve oldTag [98], .use bob eve,
    .create ann newTag newName []]

end Samples

/-- In every run without such steps what is stored about members agrees. -/
theorem membership_consistent (cfg : Config) (characterRows : Table Name CharacterRow)
    (guildRows : Table Tag GuildRow) (events : List Event)
    (h : Avoids (step cfg) (Upsets cfg) (.start characterRows guildRows) events) :
    Always (step cfg) Consistent (.start characterRows guildRows) events := by
  have hAgrees : Always (step cfg) (fun w => w.register.Agrees)
      (.start characterRows guildRows) events := by
    refine always_of_avoids (agrees_step cfg) ?_ h
    exact agrees_start characterRows guildRows
  exact hAgrees.mono fun _ => consistent_of_agrees

theorem membership_consistent_orderly :
    (run (step smallConfig) (.start smallRows smallGuilds) orderly).isSome ∧
      Always (step smallConfig) Consistent (.start smallRows smallGuilds) orderly :=
  ⟨by decide, membership_consistent smallConfig smallRows smallGuilds orderly (by decide)⟩

/-- Both guilds list Eve in the end. -/
theorem twofold_member :
    ¬Always (step smallConfig) Consistent (.start smallRows smallGuilds) twofold := by
  intro h
  have hEnd : ∃ w ∈ run (step smallConfig) (.start smallRows smallGuilds) twofold,
      (∃ self ∈ w.getCharacterReal eve, self.guild ≠ some (.of oldTag)) ∧
      ∃ guild ∈ w.cache.lookup (.of oldTag), ∃ member ∈ guild.members, member.name = eve := by
    decide
  obtain ⟨w, hRun, ⟨self, hSelf, hGuild⟩, guild, hCached, member, hMember, hName⟩ := hEnd
  exact (h twofold w List.prefix_rfl hRun).other eve self _ guild hSelf hGuild hCached member
    hMember hName

end Etheos.Guilds
