import Etheos.Guild.Handlers

/-! The guilds as a register of members: what is stored at the characters, in the
member lists in memory and in the database. -/
namespace Etheos.Guilds

open General

def Character.place (self : Character) : Place Tag Int := self.guild.map (·, self.guildRank)

def Character.person (self : Character) : Person Tag Int := ⟨self.online, self.place⟩

def CharacterRow.place (row : CharacterRow) : Place Tag Int := row.guild.map (·, row.guildRank)

/-- Nobody is listed by a guild that is not the own one. -/
theorem entries_of_ne {guild : Option Tag} {tag : Tag} (h : guild ≠ some tag) (rank : Int)
    (name : Name) : Place.entries (guild.map (·, rank)) name tag = [] := by
  cases guild with
  | none => rfl
  | some own => exact Place.entries_other (fun hOwn => h (congrArg some hOwn)) rank name

theorem GuildMember.new_eq {name : Name} {rank : Int} (hLow : 0 ≤ rank) (hHigh : rank ≤ 9) :
    GuildMember.new name rank = ⟨name, rank⟩ := by
  unfold GuildMember.new
  rw [show max 0 (min 9 rank) = rank by omega]

namespace World

def register (w : World) : Register Name Tag Int where
  people := Table.project Character.person w.characters
  records := Table.project CharacterRow.place w.characterRows
  rolls := Table.project Guild.members w.cache

variable {w : World}

section Views

theorem isActive_register (w : World) (name : Name) :
    w.register.isActive name = (w.getCharacterReal name).isSome := by
  unfold Register.isActive getCharacterReal
  change Option.any _ ((w.characters.lookup name).map Character.person) = _
  cases w.characters.lookup name with
  | none => rfl
  | some self => simp [Character.person]

theorem getCharacterReal_eq_some {name : Name} {self : Character} :
    w.getCharacterReal name = some self ↔
      w.characters.lookup name = some self ∧ self.online = true :=
  Option.filter_eq_some_iff

/-- What changes only other fields does not show in the register. -/
theorem register_modifyCharacter_same {name : Name} {f : Character → Character}
    (h : ∀ self, w.characters.lookup name = some self → (f self).person = self.person) :
    (w.modifyCharacter name f).register = w.register :=
  Register.ext (Table.project_modify_same Character.person w.characters h) rfl rfl

theorem agrees_modifyCharacter (h : w.register.Agrees) {name : Name} {f : Character → Character}
    (hSame : ∀ self, w.characters.lookup name = some self → (f self).person = self.person) :
    (w.modifyCharacter name f).register.Agrees :=
  (register_modifyCharacter_same hSame).symm ▸ h

theorem register_modifyGuild_same {tag : Tag} {f : Guild → Guild}
    (h : ∀ guild, (f guild).members = guild.members) :
    (w.modifyGuild tag f).register = w.register :=
  Register.ext rfl rfl (Table.project_modify_same Guild.members w.cache fun guild _ => h guild)

theorem register_modifyGuild (w : World) (tag : Tag) {f : Guild → Guild}
    {g : List GuildMember → List GuildMember} (h : ∀ guild, (f guild).members = g guild.members) :
    (w.modifyGuild tag f).register = w.register.changeRoll tag g := by
  refine Register.ext rfl rfl ?_
  refine (Table.project_modify Guild.members w.cache tag f).trans (congrArg _ ?_)
  change _ = ((w.cache.lookup tag).map Guild.members).map g
  rw [Option.map_map]
  exact congrArg (Option.map · _) (funext h)

/-- The change is made at the character, and in the row if need be. -/
theorem register_changeMember (w : World) (name : Name) {f : Character → Character}
    {row : CharacterRow → CharacterRow} (place : Place Tag Int → Place Tag Int)
    (hCharacter : ∀ self, (f self).person = { self.person with place := place self.place })
    (hRow : ∀ old, (row old).place = place old.place) :
    (w.changeMember name f row).register = w.register.changeMember name place := by
  have hPeople : Table.project Character.person (w.characters.modify name f) =
      Function.update w.register.people name ((w.register.people name).map
        fun person => { person with place := place person.place }) := by
    refine (Table.project_modify Character.person w.characters name f).trans (congrArg _ ?_)
    change _ = ((w.characters.lookup name).map Character.person).map _
    rw [Option.map_map]
    exact congrArg (Option.map · _) (funext hCharacter)
  have hRecords : Table.project CharacterRow.place (w.characterRows.modify name row) =
      Function.update w.register.records name ((w.register.records name).map place) := by
    refine (Table.project_modify CharacterRow.place w.characterRows name row).trans (congrArg _ ?_)
    change _ = ((w.characterRows.lookup name).map CharacterRow.place).map place
    rw [Option.map_map]
    exact congrArg (Option.map · _) (funext hRow)
  unfold changeMember Register.changeMember
  rw [isActive_register]
  dsimp only
  split
  · exact Register.ext hPeople rfl rfl
  · exact Register.ext hPeople hRecords rfl

theorem register_delMember (w : World) (tag : Tag) (kicked : Name) :
    (w.delMember tag kicked).register = w.register.strike tag kicked := by
  refine (register_modifyGuild _ tag fun _ => rfl).trans (congrArg (Register.changeRoll · tag _) ?_)
  exact w.register_changeMember kicked (fun _ => none) (fun _ => rfl) (fun _ => rfl)

theorem register_changeMemberRank (w : World) (tag : Tag) (name : Name) (rank : Int) :
    (w.changeMemberRank tag name rank).register = w.register.promote tag name rank := by
  have hPlace (guild : Option Tag) (old : Int) :
      guild.map (·, rank) = (guild.map (·, old)).map fun own => (own.1, rank) := by
    rw [Option.map_map]
    rfl
  refine (register_modifyGuild _ tag fun _ => rfl).trans (congrArg (Register.changeRoll · tag _) ?_)
  refine w.register_changeMember name _ (fun self => ?_) (fun row => hPlace row.guild row.guildRank)
  exact congrArg (Person.mk self.online) (hPlace self.guild self.guildRank)

end Views

section Memory

/-- The database can be read for the guild: nobody who is loaded has a row that
still names it, and all ranks are in range. -/
def Readable (w : World) (tag : Tag) : Prop :=
  ∀ entry ∈ w.characterRows.entries, entry.2.guild = some tag →
    w.characters.lookup entry.1 = none ∧ 0 ≤ entry.2.guildRank ∧ entry.2.guildRank ≤ 9

instance (w : World) (tag : Tag) : Decidable (w.Readable tag) :=
  inferInstanceAs (Decidable (∀ entry ∈ _, _))

theorem Readable.row {tag : Tag} (h : w.Readable tag) {name : Name} {row : CharacterRow}
    (hRow : w.characterRows.lookup name = some row) (hGuild : row.guild = some tag) :
    w.characters.lookup name = none ∧ 0 ≤ row.guildRank ∧ row.guildRank ≤ 9 :=
  h ⟨name, row⟩ (AList.mem_lookup_iff.mp hRow) hGuild

/-- Sorting does not matter, for the name is in one row at most. -/
theorem listed_readMembers (w : World) (tag : Tag) (name : Name) :
    listed name (w.readMembers tag) =
      ((w.characterRows.lookup name).bind (CharacterRow.select tag name)).toList.map
        fun row => GuildMember.new row.name row.rank := by
  unfold readMembers listed
  have hName : ∀ name row member, CharacterRow.select tag name row = some member →
      member.name = name := by
    intro name row member hMember
    obtain ⟨_, hSome⟩ := Option.ite_none_right_eq_some.mp hMember
    cases hSome
    rfl
  rw [List.filter_map, ← w.characterRows.filter_of_perm hName (List.perm_insertionSort precedes _) name]
  rfl

theorem Readable.listed_record {tag : Tag} (h : w.Readable tag) {name : Name} {place : Place Tag Int}
    (hRecord : w.register.records name = some place) :
    listed name (w.readMembers tag) = place.entries name tag := by
  obtain ⟨row, hRow, rfl⟩ := Option.map_eq_some_iff.mp hRecord
  rw [listed_readMembers, hRow, Option.bind_some]
  unfold CharacterRow.select CharacterRow.place
  by_cases hGuild : row.guild = some tag
  · obtain ⟨_, hLow, hHigh⟩ := h.row hRow hGuild
    rw [if_pos hGuild, hGuild, Option.map_some, Place.entries_own]
    exact congrArg ([·]) (GuildMember.new_eq hLow hHigh)
  · rw [if_neg hGuild, entries_of_ne hGuild]
    rfl

theorem Readable.listed_person {tag : Tag} (h : w.Readable tag) {name : Name}
    {person : Person Tag Int} (hPerson : w.register.people name = some person) :
    listed name (w.readMembers tag) = [] := by
  obtain ⟨self, hSelf, _⟩ := Option.map_eq_some_iff.mp hPerson
  rw [listed_readMembers, List.map_eq_nil_iff, Option.toList_eq_nil_iff, Option.bind_eq_none_iff]
  intro row hRow
  refine if_neg fun hGuild => ?_
  rw [(h.row hRow hGuild).1] at hSelf
  cases hSelf

/-- The register with the guild read. -/
theorem register_getGuild (w : World) {tag : Tag} {row : GuildRow}
    (hClosed : w.cache.lookup tag = none) (hRow : w.guildRows.lookup tag = some row) :
    (w.getGuild tag).register = w.register.setRoll tag (some (w.readMembers tag)) := by
  unfold getGuild
  rw [hClosed, hRow]
  exact Register.ext rfl rfl (Table.project_insert Guild.members w.cache tag _)

theorem getGuild_cached {tag : Tag} {guild : Guild} (hCached : w.cache.lookup tag = some guild) :
    w.getGuild tag = w := by
  unfold getGuild
  rw [hCached]

theorem getGuild_missing {tag : Tag} (hMissing : w.guildRows.lookup tag = none) :
    w.getGuild tag = w := by
  unfold getGuild
  rw [hMissing]
  cases w.cache.lookup tag <;> rfl

/-- Reading a guild is fine when the database can be read for it. -/
theorem agrees_getGuild (h : w.register.Agrees) {tag : Tag}
    (hReadable : w.cache.lookup tag = none → (w.guildRows.lookup tag).isSome → w.Readable tag) :
    (w.getGuild tag).register.Agrees := by
  cases hCached : w.cache.lookup tag with
  | some guild => exact (getGuild_cached hCached).symm ▸ h
  | none =>
      cases hRow : w.guildRows.lookup tag with
      | none => exact (getGuild_missing hRow).symm ▸ h
      | some row =>
          have hRead := hReadable hCached (by simp [hRow])
          rw [w.register_getGuild hCached hRow]
          exact h.openRoll (by simp [register, Table.project, hCached])
            (fun _ _ hRecord => hRead.listed_record hRecord)
            (fun _ _ hPerson => hRead.listed_person hPerson)

theorem held_iff {tag : Tag} :
    w.held tag ↔ ∃ name self, w.characters.lookup name = some self ∧ self.guild = some tag :=
  Table.any_entries w.characters (·.guild = some tag)

/-- The rows that are cleared say nothing about the guilds that stay. -/
theorem agrees_destroy {tag : Tag} (h : (w.register.setRoll tag none).Agrees) (guild : Guild) :
    (w.destroy tag guild).register.Agrees := by
  have hRolls : Table.project Guild.members (w.cache.erase tag) =
      (w.register.setRoll tag none).rolls := Table.project_erase Guild.members w.cache tag
  unfold destroy
  dsimp only
  split
  · refine h.of_records rfl hRolls fun name place' _ hRecord => ?_
    obtain ⟨row', hRow', rfl⟩ := Option.map_eq_some_iff.mp hRecord
    rw [Table.lookup_mapValues] at hRow'
    obtain ⟨row, hRow, rfl⟩ := Option.map_eq_some_iff.mp hRow'
    refine ⟨row.place, Option.map_eq_some_iff.mpr ⟨row, hRow, rfl⟩, fun other hOpen => ?_⟩
    by_cases hGuild : row.guild = some tag
    · have hOther : tag ≠ other := by
        rintro rfl
        rw [Register.setRoll_self] at hOpen
        cases hOpen
      rw [if_pos hGuild, CharacterRow.place, CharacterRow.place, hGuild]
      exact (Place.entries_other hOther ..).symm
    · rw [if_neg hGuild]
  · exact h.of_records rfl hRolls fun name place _ hRecord => ⟨place, hRecord, fun _ _ => rfl⟩

theorem agrees_release (h : w.register.Agrees) (tag : Tag) : (w.release tag).register.Agrees := by
  unfold release
  split
  next guild _ =>
    split
    · exact h
    next hHeld =>
      refine agrees_destroy (h.closeRoll ?_) guild
      rintro name person own rank hPerson hPlace rfl
      obtain ⟨self, hSelf, rfl⟩ := Option.map_eq_some_iff.mp hPerson
      obtain ⟨own', hOwn, hSame⟩ := Option.map_eq_some_iff.mp hPlace
      cases hSame
      exact hHeld (held_iff.mpr ⟨name, self, hSelf, hOwn⟩)
  · exact h

theorem getGuild_characters (w : World) (tag : Tag) : (w.getGuild tag).characters = w.characters := by
  unfold getGuild
  split <;> rfl

theorem not_held (h : w.register.Agrees) {tag : Tag} (hClosed : w.cache.lookup tag = none) :
    ¬w.held tag := by
  intro hHeld
  obtain ⟨name, self, hSelf, hGuild⟩ := held_iff.mp hHeld
  have hOpen := h.opened name self.person tag self.guildRank
    (Option.map_eq_some_iff.mpr ⟨self, hSelf, rfl⟩) (Option.map_eq_some_iff.mpr ⟨tag, hGuild, rfl⟩)
  simp [register, Table.project, hClosed] at hOpen

/-- A guild that is only looked for is in memory for no longer than that. -/
theorem agrees_peek (h : w.register.Agrees) (tag : Tag) : (w.peek tag).register.Agrees := by
  unfold peek
  cases hCached : w.cache.lookup tag with
  | some guild => exact (getGuild_cached hCached).symm ▸ agrees_release h tag
  | none =>
      cases hRow : w.guildRows.lookup tag with
      | none => exact (getGuild_missing hRow).symm ▸ agrees_release h tag
      | some row =>
          have hClosed : w.register.rolls tag = none := by simp [register, Table.project, hCached]
          have hUnheld : ¬(w.getGuild tag).held tag := by
            unfold held
            rw [getGuild_characters]
            exact not_held h hCached
          unfold release
          split
          next guild _ =>
            rw [if_neg hUnheld]
            refine agrees_destroy ?_ guild
            rw [w.register_getGuild hCached hRow, Register.setRoll_none _ _ _ hClosed]
            exact h
          next hNone =>
            rw [getGuild, hCached, hRow] at hNone
            simp at hNone

end Memory

section Members

theorem register_rolls {tag : Tag} {guild : Guild} (h : w.cache.lookup tag = some guild) :
    w.register.rolls tag = some guild.members :=
  congrArg (Option.map Guild.members) h

/-- Of a character in the world only its own pointer counts. -/
theorem places_of_online {name : Name} {self : Character} (hSelf : w.getCharacterReal name = some self)
    {Q : Place Tag Int → Prop} (hPlace : Q self.place) : w.register.Places name Q where
  person person hPerson := by
    obtain ⟨other, hOther, rfl⟩ := Option.map_eq_some_iff.mp hPerson
    rw [(getCharacterReal_eq_some.mp hSelf).1] at hOther
    obtain rfl := Option.some.inj hOther
    exact hPlace
  record hActive := by
    rw [isActive_register, hSelf] at hActive
    cases hActive

theorem Character.within_own {self : Character} {tag : Tag} (hGuild : self.guild = some tag) :
    self.place.Within tag := by
  intro own rank hPlace
  rw [Character.place, hGuild] at hPlace
  cases hPlace
  rfl

theorem changeMember_online {name : Name} (h : (w.getCharacterReal name).isSome)
    (f : Character → Character) (row : CharacterRow → CharacterRow) :
    w.changeMember name f row = w.modifyCharacter name f := by
  unfold changeMember
  exact if_pos h

section Joining

variable {tag : Tag} {joined : Name} {self : Character} {rank : Int}

/-- Nobody's pointer is lost when the character that joins has none. -/
theorem addMember_free (hSelf : w.getCharacterReal joined = some self) (hFree : self.guild = none) :
    w.addMember tag joined rank =
      (w.modifyCharacter joined ({ · with guild := some tag, guildRank := rank })).modifyGuild tag
        fun guild => { guild with members := guild.members ++ [GuildMember.new joined rank] } := by
  unfold addMember
  rw [(getCharacterReal_eq_some.mp hSelf).1, Option.bind_some, hFree]

theorem register_addMember (hSelf : w.getCharacterReal joined = some self) (hFree : self.guild = none)
    (hLow : 0 ≤ rank) (hHigh : rank ≤ 9) :
    (w.addMember tag joined rank).register = w.register.enrol tag joined rank := by
  rw [addMember_free hSelf hFree, GuildMember.new_eq hLow hHigh]
  refine (register_modifyGuild _ tag fun _ => rfl).trans (congrArg (Register.changeRoll · tag _) ?_)
  rw [← changeMember_online (by simp [hSelf]) _ fun _ => ⟨some tag, rank⟩]
  exact w.register_changeMember joined (fun _ => some (tag, rank)) (fun _ => rfl) (fun _ => rfl)

theorem agrees_addMember (h : w.register.Agrees) (hSelf : w.getCharacterReal joined = some self)
    (hFree : self.guild = none) (hOpen : (w.cache.lookup tag).isSome) (hLow : 0 ≤ rank)
    (hHigh : rank ≤ 9) : (w.addMember tag joined rank).register.Agrees := by
  rw [register_addMember hSelf hFree hLow hHigh]
  refine h.enrol (places_of_online hSelf ?_) ?_ rank
  · rw [Character.place, hFree, Option.map_none]
  · exact Option.isSome_map.trans hOpen

theorem addMember_getCharacterReal (hSelf : w.getCharacterReal joined = some self)
    (hFree : self.guild = none) {other : Name} (hOther : other ≠ joined) :
    (w.addMember tag joined rank).getCharacterReal other = w.getCharacterReal other := by
  rw [addMember_free hSelf hFree]
  change Option.filter _ ((w.characters.modify joined _).lookup other) = _
  rw [Table.lookup_modify, if_neg hOther]
  rfl

theorem addMember_cache (hSelf : w.getCharacterReal joined = some self) (hFree : self.guild = none)
    (hOpen : (w.cache.lookup tag).isSome) :
    ((w.addMember tag joined rank).cache.lookup tag).isSome := by
  rw [addMember_free hSelf hFree]
  change ((w.cache.modify tag _).lookup tag).isSome
  rw [Table.lookup_modify, if_pos rfl, Option.isSome_map]
  exact hOpen

end Joining

section Leaving

variable {tag : Tag}

/-- Somebody leaves who is in no other guild. -/
theorem agrees_delMember (h : w.register.Agrees) {kicked : Name}
    (hWithin : w.register.Places kicked (·.Within tag)) :
    (w.delMember tag kicked).register.Agrees :=
  w.register_delMember tag kicked ▸ h.strike hWithin

/-- A member that is found in the list is in no other guild. -/
theorem within_of_getMember (h : w.register.Agrees) {name : Name} {target : GuildMember}
    (hFound : (w.cache.lookup tag).bind (·.getMember name) = some target) :
    target.name = name ∧ w.register.Places name (·.Within tag) := by
  obtain ⟨guild, hCached, hTarget⟩ := Option.bind_eq_some_iff.mp hFound
  have hName : target.name = name := by simpa using List.find?_some hTarget
  refine ⟨hName, ?_⟩
  have hWithin := h.within (register_rolls hCached) (List.mem_of_find?_eq_some hTarget)
  rwa [hName] at hWithin

theorem agrees_disband (h : w.register.Agrees) {members : List GuildMember}
    (hWithin : ∀ member ∈ members, w.register.Places member.name (·.Within tag)) :
    (w.disband tag members).register.Agrees := by
  unfold disband
  induction members generalizing w with
  | nil => exact h
  | cons member rest ih =>
      rw [List.foldl_cons]
      refine ih (agrees_delMember h (hWithin member (by simp))) fun other hOther => ?_
      have hPlaces := (hWithin other (by simp [hOther])).changeMember member.name
        (f := fun _ => none) fun _ _ => Place.within_none tag
      rw [register_delMember]
      exact ⟨hPlaces.person, hPlaces.record⟩

theorem agrees_setMemberRank (h : w.register.Agrees) {name : Name} {rank : Int} {next : World}
    (hNext : w.setMemberRank tag name rank = some next) : next.register.Agrees := by
  unfold setMemberRank at hNext
  split at hNext
  · cases hNext
    exact h
  · cases hNext
  next target _ hFound _ =>
    cases hNext
    rw [register_changeMemberRank]
    exact h.promote (within_of_getMember h hFound).2 rank

end Leaving

end Members

end World

end Etheos.Guilds
