import Etheos.Guild.Consistency

/-! What each of the handlers does to the register of members. -/
namespace Etheos.Guilds

open General

namespace World

variable {cfg : Config} {w : World} {c : Name} {self : Character}

section Creation

theorem register_setCreate (w : World) (leader : Name) (create : Option GuildCreate) :
    (w.setCreate leader create).register = w.register := by
  have hModified : (w.modifyCharacter leader ({ · with guildCreate := create })).register =
      w.register := register_modifyCharacter_same fun _ _ => rfl
  unfold setCreate
  dsimp only
  split <;> exact hModified

theorem register_beginCreate (w : World) (tag : Tag) (name leader : Name) :
    (w.beginCreate tag name leader).register = w.register :=
  register_setCreate { w with createCache := w.createCache.insert tag leader } leader _

theorem register_invite (w : World) (c : Name) (self : Character) (tag : Tag) :
    (w.invite c self tag).register = w.register := by
  refine Register.ext (Table.project_mapValues_same Character.person w.characters ?_) rfl rfl
  intro name other
  split <;> rfl

theorem agrees_guildRequest (h : w.register.Agrees) (tag name : Bytes) :
    (w.guildRequest cfg c self tag name).register.Agrees := by
  unfold guildRequest
  split
  · exact h
  · split
    · exact h
    · split
      next found _ => exact agrees_peek h found
      · split
        · rw [register_invite, register_beginCreate]
          exact h
        · exact h

theorem agrees_guildAccept (h : w.register.Agrees) : (w.guildAccept c self).register.Agrees := by
  unfold guildAccept
  split
  · exact h
  · dsimp only
    refine agrees_modifyCharacter ?_ fun _ _ => rfl
    split
    · exact h
    · exact agrees_modifyCharacter h fun _ _ => rfl

/-- Those on the list who would join are in no guild, and nobody would join
twice. -/
def Unattached (w : World) (members : List GuildMember) : Prop :=
  let joining := (members.map (·.name)).filter fun name => (w.getCharacterReal name).isSome
  joining.Nodup ∧ ∀ name ∈ joining, (w.getCharacterReal name).bind (·.guild) = none

instance (w : World) (members : List GuildMember) : Decidable (w.Unattached members) :=
  inferInstanceAs (Decidable (_ ∧ _))

theorem Unattached.self_free {member : GuildMember} {rest : List GuildMember}
    (h : w.Unattached (member :: rest)) (hSelf : w.getCharacterReal member.name = some self) :
    self.guild = none := by
  have hFree := h.2 member.name (by simp [hSelf])
  rwa [hSelf, Option.bind_some] at hFree

theorem Unattached.tail {member : GuildMember} {rest : List GuildMember}
    (h : w.Unattached (member :: rest)) : w.Unattached rest := by
  obtain ⟨hNodup, hFree⟩ := h
  rw [List.map_cons, List.filter_cons] at hNodup hFree
  split at hNodup
  next hOnline =>
    rw [if_pos hOnline] at hFree
    exact ⟨(List.nodup_cons.mp hNodup).2, fun name hName => hFree name (List.mem_cons_of_mem _ hName)⟩
  next hOnline =>
    rw [if_neg hOnline] at hFree
    exact ⟨hNodup, hFree⟩

/-- The others on the list are as they were when the first one has joined. -/
theorem Unattached.addMember {tag : Tag} {member : GuildMember} {rest : List GuildMember}
    (h : w.Unattached (member :: rest)) (hSelf : w.getCharacterReal member.name = some self)
    (rank : Int) : (w.addMember tag member.name rank).Unattached rest := by
  have hOther : ∀ name ∈ rest.map (·.name), name ≠ member.name := by
    rintro name hName rfl
    have hNodup := h.1
    rw [List.map_cons, List.filter_cons_of_pos (by simp [hSelf])] at hNodup
    exact (List.nodup_cons.mp hNodup).1 (List.mem_filter.mpr ⟨hName, by simp [hSelf]⟩)
  have hSame : ∀ name ∈ rest.map (·.name),
      (w.addMember tag member.name rank).getCharacterReal name = w.getCharacterReal name :=
    fun name hName => addMember_getCharacterReal hSelf (h.self_free hSelf) (hOther name hName)
  obtain ⟨hNodup, hFree⟩ := h.tail
  unfold Unattached
  dsimp only
  rw [List.filter_congr fun name hName => congrArg Option.isSome (hSame name hName)]
  refine ⟨hNodup, fun name hName => ?_⟩
  rw [hSame name (List.mem_filter.mp hName).1]
  exact hFree name hName

/-- One after the other joins the guild, which stays in memory. -/
theorem agrees_join (h : w.register.Agrees) {tag : Tag} (leader : Name) {members : List GuildMember}
    (hOpen : (w.cache.lookup tag).isSome) (hFree : w.Unattached members) :
    (members.foldl (fun w member =>
      if (w.getCharacterReal member.name).isSome then
        w.addMember tag member.name (if member.name = leader then 0 else 9)
      else w) w).register.Agrees := by
  induction members generalizing w with
  | nil => exact h
  | cons member rest ih =>
      rw [List.foldl_cons]
      cases hSelf : w.getCharacterReal member.name with
      | none => exact ih h hOpen hFree.tail
      | some self =>
          have hSelfFree := hFree.self_free hSelf
          rw [Option.isSome_some, if_pos rfl]
          exact ih (agrees_addMember h hSelf hSelfFree hOpen (by split <;> omega) (by split <;> omega))
            (addMember_cache hSelf hSelfFree hOpen) (hFree.addMember hSelf _)

/-- The guild is in memory once its row is in the table. -/
theorem getGuild_isSome {tag : Tag} (hRow : (w.guildRows.lookup tag).isSome) :
    ((w.getGuild tag).cache.lookup tag).isSome := by
  unfold getGuild
  split
  · exact Option.isSome_of_mem (AList.lookup_insert _)
  next hNone =>
    cases hCached : w.cache.lookup tag with
    | some guild => rfl
    | none =>
        obtain ⟨row, hFound⟩ := Option.isSome_iff_exists.mp hRow
        exact absurd hFound (hNone row hCached)

theorem Unattached.of_characters {members : List GuildMember} (h : w.Unattached members) {v : World}
    (hSame : v.characters = w.characters) : v.Unattached members := by
  have hReal : v.getCharacterReal = w.getCharacterReal := by
    funext name
    unfold getCharacterReal
    rw [hSame]
  unfold Unattached
  rw [hReal]
  exact h

theorem agrees_createGuild (h : w.register.Agrees) (leader : Name) {create : GuildCreate}
    (hReadable : w.Readable create.tag) (hFree : w.Unattached create.members) :
    (w.createGuild leader create).register.Agrees := by
  let inserted : World := { w with
    guildRows := w.guildRows.insert create.tag ⟨create.name, 0⟩
    createCache := w.createCache.erase create.tag }
  have hInserted : inserted.register.Agrees := h
  have hRow : (inserted.guildRows.lookup create.tag).isSome :=
    Option.isSome_of_mem (AList.lookup_insert _)
  refine agrees_join (agrees_getGuild hInserted fun _ _ => hReadable) leader (getGuild_isSome hRow) ?_
  exact hFree.of_characters (getGuild_characters inserted create.tag)

theorem agrees_guildCreate (h : w.register.Agrees) {tag name description : Bytes}
    (hGood : ∀ create, w.created cfg c self tag name description = some create →
      w.Unattached create.members ∧ w.Readable create.tag) :
    (w.guildCreate cfg c self tag name description).register.Agrees := by
  unfold guildCreate
  split
  · exact h
  next create hCreated =>
    obtain ⟨hFree, hReadable⟩ := hGood create hCreated
    refine agrees_release ?_ create.tag
    rw [register_setCreate]
    refine agrees_modifyCharacter (agrees_createGuild h c hReadable hFree) fun other _ => ?_
    unfold Character.delGold
    split <;> rfl

end Creation

section Members

theorem agrees_guildPlayer (h : w.register.Agrees) (tag recruiterName : Bytes) :
    (w.guildPlayer cfg c self tag recruiterName).register.Agrees := by
  unfold guildPlayer
  split
  · exact h
  · split
    · exact h
    · split
      · exact h
      · split
        · exact agrees_modifyCharacter h fun _ _ => rfl
        · exact h

/-- The recruit is in no guild when the recruiter accepts. -/
theorem agrees_guildUse (h : w.register.Agrees) (joiner : Name) :
    (w.guildUse cfg self joiner).register.Agrees := by
  unfold guildUse
  split
  next tag other _ hOther =>
    split
    · exact h
    next guild hCached =>
      split
      next hAccepted =>
        rw [register_modifyGuild_same fun guild => ?_]
        · exact agrees_addMember h hOther hAccepted.2.1 (by simp [hCached]) (by omega) (by omega)
        · unfold Guild.delBank
          split <;> rfl
      · exact h
  · exact h

theorem agrees_guildRemove (h : w.register.Agrees) (hSelf : w.getCharacterReal c = some self) :
    (w.guildRemove c self).register.Agrees := by
  unfold guildRemove
  split
  · exact h
  next tag hGuild =>
    split
    · refine agrees_release (agrees_delMember h ?_) tag
      exact places_of_online hSelf (Character.within_own hGuild)
    · exact h

theorem agrees_guildKick (h : w.register.Agrees) (name : Bytes) :
    (w.guildKick cfg self name).register.Agrees := by
  unfold guildKick
  split
  · exact h
  next tag _ =>
    split
    · exact h
    next target hFound =>
      split
      · exact agrees_release (agrees_delMember h (within_of_getMember h hFound).2) tag
      · exact h

theorem agrees_guildJunk (h : w.register.Agrees) : (w.guildJunk cfg self).register.Agrees := by
  unfold guildJunk
  split
  · exact h
  next tag _ =>
    split
    · exact h
    next guild hCached =>
      split
      · refine agrees_release (agrees_disband h fun member hMember => ?_) tag
        exact h.within (register_rolls hCached) hMember
      · exact h

theorem agrees_guildRank (h : w.register.Agrees) {rank : Int} {name : Bytes} {next : World}
    (hNext : w.guildRank cfg self rank name = some next) : next.register.Agrees := by
  unfold guildRank at hNext
  split at hNext
  · cases hNext
    exact h
  · split at hNext
    · cases hNext
      exact h
    · split at hNext
      · exact agrees_setMemberRank h hNext
      · cases hNext
        exact h

theorem agrees_guildBuy (h : w.register.Agrees) (gold : Int) :
    (w.guildBuy cfg c self gold).register.Agrees := by
  unfold guildBuy
  split
  · exact h
  · split
    · exact h
    · dsimp only
      split
      · rw [register_modifyGuild_same fun guild => ?_]
        · refine agrees_modifyCharacter h fun other _ => ?_
          unfold Character.delGold
          split <;> rfl
        · unfold Guild.addBank
          split <;> rfl
      · exact h

end Members

section Presence

theorem register_insert (w : World) (c : Name) (self : Character) :
    ({ w with characters := w.characters.insert c self } : World).register =
      w.register.setPerson c (some self.person) :=
  Register.ext (Table.project_insert Character.person w.characters c self) rfl rfl

theorem getGuild_rows (w : World) (tag : Tag) : (w.getGuild tag).characterRows = w.characterRows := by
  unfold getGuild
  split <;> rfl

/-- A character appears in the guild that its row names, or in none if that one
is not in memory. -/
theorem agrees_appear (h : w.register.Agrees) {row : CharacterRow}
    (hAbsent : w.characters.lookup c = none) (hRow : w.characterRows.lookup c = some row)
    (hOffline : self.online = false)
    (hPlace : self.place = row.place ∧ (∀ tag, row.guild = some tag → (w.cache.lookup tag).isSome) ∨
      self.place = none ∧ ∀ tag, row.guild = some tag → w.cache.lookup tag = none) :
    ({ w with characters := w.characters.insert c self } : World).register.Agrees := by
  have hPerson : self.person = ⟨false, self.place⟩ := congrArg (Person.mk · self.place) hOffline
  rw [register_insert, hPerson]
  refine h.arrive (congrArg (Option.map _) hAbsent) (congrArg (Option.map _) hRow) ?_ ?_
  · intro tag hOpen
    rcases hPlace with ⟨hSame, _⟩ | ⟨hNone, hClosed⟩
    · rw [hSame]
    · rw [hNone]
      refine (entries_of_ne (fun hGuild => ?_) ..).symm
      simp [register, Table.project, hClosed tag hGuild] at hOpen
  · intro own rank hOwn
    rcases hPlace with ⟨hSame, hOpen⟩ | ⟨hNone, _⟩
    · obtain ⟨tag, hGuild, hTag⟩ := Option.map_eq_some_iff.mp (hSame.symm.trans hOwn)
      cases hTag
      exact Option.isSome_map.trans (hOpen own hGuild)
    · rw [hNone] at hOwn
      cases hOwn

theorem agrees_load (h : w.register.Agrees) {row : CharacterRow}
    (hAbsent : w.characters.lookup c = none) (hRow : w.characterRows.lookup c = some row)
    (hReadable : ∀ tag, row.guild = some tag → w.cache.lookup tag = none →
      (w.guildRows.lookup tag).isSome → w.Readable tag) (around : Surroundings) :
    (w.load c row around).register.Agrees := by
  unfold load
  split
  next hNone =>
    refine agrees_appear h hAbsent hRow rfl (Or.inl ⟨?_, ?_⟩)
    · rw [CharacterRow.place, hNone]
      rfl
    · rw [hNone]
      intro tag hTag
      cases hTag
  next tag hTag =>
    dsimp only
    have hRead : (w.getGuild tag).register.Agrees := agrees_getGuild h (hReadable tag hTag)
    have hSameRow : (w.getGuild tag).characterRows.lookup c = some row := getGuild_rows w tag ▸ hRow
    refine agrees_appear hRead ?_ hSameRow rfl ?_
    · rw [getGuild_characters]
      exact hAbsent
    · have hOnly : ∀ own, row.guild = some own → own = tag :=
        fun own hOwn => Option.some.inj (hOwn.symm.trans hTag)
      cases hCached : (w.getGuild tag).cache.lookup tag with
      | some guild =>
          refine Or.inl ⟨?_, fun own hOwn => ?_⟩
          · rw [CharacterRow.place, hTag]
            rfl
          · rw [hOnly own hOwn, hCached]
            rfl
      | none =>
          refine Or.inr ⟨rfl, fun own hOwn => ?_⟩
          rw [hOnly own hOwn, hCached]

theorem agrees_enter (h : w.register.Agrees) (hSelf : w.characters.lookup c = some self) :
    (w.modifyCharacter c ({ · with online := true })).register.Agrees := by
  have hRegister : (w.modifyCharacter c ({ · with online := true })).register =
      w.register.setPerson c (some { self.person with active := true }) := by
    refine Register.ext ?_ rfl rfl
    refine (Table.project_modify Character.person w.characters c _).trans (congrArg _ ?_)
    rw [hSelf]
    rfl
  rw [hRegister]
  exact h.activate (congrArg (Option.map _) hSelf)

/-- The row that is written is that of a character in the world. -/
theorem agrees_save (h : w.register.Agrees) (hSelf : w.getCharacterReal c = some self) :
    (w.save c self).register.Agrees := by
  refine h.of_records rfl rfl fun name place' hInactive hRecord => ?_
  have hOther : name ≠ c := by
    rintro rfl
    rw [isActive_register, hSelf] at hInactive
    cases hInactive
  change ((w.characterRows.modify c _).lookup name).map _ = _ at hRecord
  rw [Table.lookup_modify, if_neg hOther] at hRecord
  exact ⟨place', hRecord, fun _ _ => rfl⟩

theorem agrees_timedSave (h : w.register.Agrees) : w.timedSave.register.Agrees := by
  refine h.of_records rfl rfl fun name place' hInactive hRecord => ?_
  rw [isActive_register, Option.isSome_eq_false_iff, Option.isNone_iff_eq_none] at hInactive
  obtain ⟨row', hRow', rfl⟩ := Option.map_eq_some_iff.mp hRecord
  unfold timedSave at hRow'
  rw [Table.lookup_mapValues] at hRow'
  obtain ⟨row, hRow, rfl⟩ := Option.map_eq_some_iff.mp hRow'
  rw [hInactive]
  exact ⟨row.place, congrArg (Option.map _) hRow, fun _ _ => rfl⟩

/-- Somebody goes whose record says what the character says. -/
theorem agrees_erase (h : w.register.Agrees) (hSelf : w.characters.lookup c = some self)
    (hSaved : self.online = true → ∀ row, w.characterRows.lookup c = some row →
      row.place = self.place) :
    ({ w with characters := w.characters.erase c } : World).register.Agrees := by
  have hRegister : ({ w with characters := w.characters.erase c } : World).register =
      w.register.setPerson c none :=
    Register.ext (Table.project_erase Character.person w.characters c) rfl rfl
  rw [hRegister]
  refine h.depart fun person place hPerson hActive hRecord => ?_
  obtain ⟨other, hOther, rfl⟩ := Option.map_eq_some_iff.mp hPerson
  obtain rfl := Option.some.inj (hSelf.symm.trans hOther)
  obtain ⟨row, hRow, rfl⟩ := Option.map_eq_some_iff.mp hRecord
  exact hSaved hActive row hRow

theorem setCreate_rows (w : World) (leader : Name) (create : Option GuildCreate) :
    (w.setCreate leader create).characterRows = w.characterRows := by
  unfold setCreate
  dsimp only
  split <;> rfl

theorem setCreate_lookup (hSelf : w.characters.lookup c = some self) (create : Option GuildCreate) :
    (w.setCreate c create).characters.lookup c = some { self with guildCreate := create } := by
  have hModified : (w.modifyCharacter c ({ · with guildCreate := create })).characters.lookup c =
      some { self with guildCreate := create } := by
    refine (Table.lookup_modify ..).trans ?_
    rw [if_pos rfl, hSelf]
    rfl
  unfold setCreate
  dsimp only
  split <;> exact hModified

theorem agrees_unload (h : w.register.Agrees) (hSelf : w.characters.lookup c = some self) :
    (w.unload c self).register.Agrees := by
  have hSaved : (if self.online then w.save c self else w).register.Agrees := by
    split
    next hOnline => exact agrees_save h (getCharacterReal_eq_some.mpr ⟨hSelf, hOnline⟩)
    · exact h
  have hStill : (if self.online then w.save c self else w).characters.lookup c = some self := by
    split <;> exact hSelf
  have hRow : self.online = true → ∀ row,
      (if self.online then w.save c self else w).characterRows.lookup c = some row →
      row.place = self.place := by
    intro hOnline row hFound
    rw [if_pos hOnline] at hFound
    change (w.characterRows.modify c _).lookup c = _ at hFound
    rw [Table.lookup_modify, if_pos rfl] at hFound
    obtain ⟨_, _, rfl⟩ := Option.map_eq_some_iff.mp hFound
    rfl
  unfold unload
  generalize (if self.online then w.save c self else w) = saved at hSaved hStill hRow ⊢
  have hErased := agrees_erase ((register_setCreate saved c none).symm ▸ hSaved)
    (setCreate_lookup hStill none) fun hOnline row hFound =>
      hRow hOnline row (setCreate_rows saved c none ▸ hFound)
  dsimp only
  split
  · exact hErased
  next tag _ => exact agrees_release hErased tag

end Presence

end World

end Etheos.Guilds
