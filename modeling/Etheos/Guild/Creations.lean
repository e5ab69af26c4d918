import Etheos.General.WeakCache
import Etheos.Guild.Runs

/-! Guilds that are being created, and whether they are found by their tags. -/
namespace Etheos.Guilds

open General

namespace World

/-- Who holds a guild that is being created, and who is found for its tag. -/
def creations (w : World) : WeakCache Name Tag where
  held name := (w.characters.lookup name).bind fun self => self.guildCreate.map (·.tag)
  cached tag := w.createCache.lookup tag

variable {w : World} {c : Name}

section Unchanged

theorem creations_modifyCharacter {f : Character → Character}
    (hf : ∀ self, w.characters.lookup c = some self →
      (f self).guildCreate.map (·.tag) = self.guildCreate.map (·.tag)) :
    (w.modifyCharacter c f).creations = w.creations := by
  have hHeld : (w.modifyCharacter c f).creations.held = w.creations.held := by
    funext name
    show ((w.characters.modify c f).lookup name).bind _ = _
    rw [Table.lookup_modify]
    split
    case isFalse => rfl
    case isTrue hName =>
      subst hName
      cases hSelf : w.characters.lookup name with
      | none => simp [creations, hSelf]
      | some self => simpa [creations, hSelf] using hf self hSelf
  exact WeakCache.ext hHeld rfl

theorem creations_delGold (amount : Int) : (w.modifyCharacter c (·.delGold amount)).creations = w.creations := by
  refine creations_modifyCharacter fun self _ => ?_
  unfold Character.delGold
  split
  · rfl
  · rfl

@[simp] theorem creations_modifyGuild (tag : Tag) (f : Guild → Guild) :
    (w.modifyGuild tag f).creations = w.creations := rfl

@[simp] theorem creations_modifyRow (f : CharacterRow → CharacterRow) :
    (w.modifyRow c f).creations = w.creations := rfl

@[simp] theorem creations_getGuild (tag : Tag) : (w.getGuild tag).creations = w.creations := by
  unfold getGuild
  split
  · rfl
  · rfl

@[simp] theorem creations_release (tag : Tag) : (w.release tag).creations = w.creations := by
  unfold release
  split
  · split
    · rfl
    · unfold destroy
      dsimp only
      split
      · rfl
      · rfl
  · rfl

@[simp] theorem creations_peek (tag : Tag) : (w.peek tag).creations = w.creations := by
  simp [peek]

@[simp] theorem creations_addMember (tag : Tag) (rank : Int) : (w.addMember tag c rank).creations = w.creations := by
  have hModified : (w.modifyCharacter c ({ · with guild := some tag, guildRank := rank })).creations =
      w.creations := creations_modifyCharacter fun _ _ => rfl
  unfold addMember
  dsimp only
  split
  · simp [hModified]
  · simp [hModified]

theorem creations_changeMember {f : Character → Character} (hf : ∀ self, (f self).guildCreate = self.guildCreate)
    (row : CharacterRow → CharacterRow) : (w.changeMember c f row).creations = w.creations := by
  have hModified : (w.modifyCharacter c f).creations = w.creations :=
    creations_modifyCharacter fun self _ => by rw [hf]
  unfold changeMember
  dsimp only
  split
  · exact hModified
  · exact hModified

@[simp] theorem creations_delMember (tag : Tag) : (w.delMember tag c).creations = w.creations := by
  unfold delMember
  dsimp only
  rw [creations_modifyGuild]
  refine creations_changeMember ?_ _
  intro self
  rfl

theorem creations_setMemberRank {tag : Tag} {rank : Int} {next : World}
    (h : w.setMemberRank tag c rank = some next) : next.creations = w.creations := by
  unfold setMemberRank at h
  split at h
  · cases h
    rfl
  · cases h
  · cases h
    unfold changeMemberRank
    dsimp only
    rw [creations_modifyGuild]
    refine creations_changeMember ?_ _
    intro self
    rfl

@[simp] theorem creations_disband (tag : Tag) (members : List GuildMember) :
    (w.disband tag members).creations = w.creations := by
  unfold disband
  induction members generalizing w with
  | nil => rfl
  | cons member members ih =>
      rw [List.foldl_cons, ih, creations_delMember]

end Unchanged

section Changed

/-- What is held and what is found when a pointer is overwritten. -/
theorem creations_setCreate {self : Character} (hSelf : w.characters.lookup c = some self)
    (create : Option GuildCreate) : (w.setCreate c create).creations =
      ⟨Function.update w.creations.held c (create.map (·.tag)),
        WeakCache.erase (w.creations.held c) w.creations.cached⟩ := by
  have hOwn : w.creations.held c = self.guildCreate.map (·.tag) := by simp [creations, hSelf]
  have hHeld : (w.modifyCharacter c ({ · with guildCreate := create })).creations.held =
      Function.update w.creations.held c (create.map (·.tag)) := by
    funext name
    show ((w.characters.modify c _).lookup name).bind _ = _
    rw [Table.lookup_modify]
    split
    case isTrue hName =>
      rw [hName, hSelf, Function.update_self]
      rfl
    case isFalse hName =>
      rw [Function.update_of_ne hName]
      rfl
  have hFound : (w.modifyCharacter c ({ · with guildCreate := create })).creations.cached = w.creations.cached := rfl
  unfold setCreate
  dsimp only
  rw [hSelf, Option.bind_some, hOwn]
  cases hOld : self.guildCreate with
  | none =>
      refine WeakCache.ext hHeld ?_
      funext tag
      simp [WeakCache.erase, hFound]
  | some old =>
      refine WeakCache.ext hHeld ?_
      funext tag
      show (w.createCache.erase old.tag).lookup tag = _
      rw [Table.lookup_erase_eq]
      simp [WeakCache.erase, creations, eq_comm]

theorem creations_beginCreate {self : Character} (hSelf : w.characters.lookup c = some self) (tag : Tag)
    (name : Name) :
    (w.beginCreate tag name c).creations = w.creations.begin c tag := by
  have hStored := creations_setCreate (w := { w with createCache := w.createCache.insert tag c }) hSelf
    (some ⟨tag, name, [GuildMember.new c 0]⟩)
  have hFound : (creations { w with createCache := w.createCache.insert tag c }).cached =
      Function.update w.creations.cached tag (some c) := by
    funext other
    show (w.createCache.insert tag c).lookup other = _
    rw [Table.lookup_insert_eq, Function.update_apply]
    rfl
  rw [hFound] at hStored
  exact hStored

theorem creations_invite (self : Character) (tag : Tag) : (w.invite c self tag).creations = w.creations := by
  refine WeakCache.ext ?_ rfl
  funext name
  show ((w.characters.mapValues _).lookup name).bind _ = _
  rw [Table.lookup_mapValues]
  cases hOther : w.characters.lookup name with
  | none => simp [creations, hOther]
  | some other =>
      simp only [Option.map_some, Option.bind_some, creations, hOther]
      split
      · rfl
      · rfl

theorem creations_createGuild (create : GuildCreate) : (w.createGuild c create).creations =
    ⟨w.creations.held, WeakCache.erase (some create.tag) w.creations.cached⟩ := by
  have hJoin (members : List GuildMember) (v : World) :
      (members.foldl (fun (w : World) (member : GuildMember) =>
        if (w.getCharacterReal member.name).isSome then
          w.addMember create.tag member.name (if member.name = c then 0 else 9)
        else w) v).creations = v.creations := by
    induction members generalizing v with
    | nil => rfl
    | cons member members ih =>
        rw [List.foldl_cons, ih]
        split
        · exact creations_addMember _ _
        · rfl
  unfold createGuild
  dsimp only
  rw [hJoin, creations_getGuild]
  refine WeakCache.ext rfl ?_
  funext tag
  show (w.createCache.erase create.tag).lookup tag = _
  rw [Table.lookup_erase_eq]
  simp [WeakCache.erase, creations, eq_comm]

end Changed

section Handlers

variable {cfg : Config} {self : Character}

/-- `Guild_Request` comes to `BeginCreate`. -/
def Granted (cfg : Config) (w : World) (self : Character) (tag name : Bytes) : Prop :=
  ¬(tag.length > 3 ∨ name.length > cfg.guildMaxNameLength) ∧
    ¬(¬self.around.guildNpc ∨ self.guild.isSome ∨ cfg.guildCreateMembers ≤ 0) ∧
    w.findGuild (.of tag) (.of name) = none ∧
    (validTag (.of tag) ∧ validGuildName cfg (.of name) ∧ self.around.gold ≥ cfg.guildPrice)

instance (cfg : Config) (w : World) (self : Character) (tag name : Bytes) : Decidable (Granted cfg w self tag name) :=
  inferInstanceAs (Decidable (_ ∧ _))

theorem creations_request_granted (hSelf : w.characters.lookup c = some self) {tag name : Bytes}
    (h : w.Granted cfg self tag name) :
    (w.guildRequest cfg c self tag name).creations = w.creations.begin c (.of tag) := by
  obtain ⟨hLength, hPlace, hFree, hRest⟩ := h
  unfold guildRequest
  rw [if_neg hLength, if_neg hPlace, hFree]
  dsimp only
  rw [if_pos hRest, creations_invite, creations_beginCreate hSelf]

theorem creations_request_refused {tag name : Bytes} (h : ¬w.Granted cfg self tag name) :
    (w.guildRequest cfg c self tag name).creations = w.creations := by
  unfold guildRequest
  split
  · rfl
  case isFalse hLength =>
    split
    · rfl
    case isFalse hPlace =>
      split
      · exact creations_peek _
      case h_2 hFree =>
        split
        case isTrue hRest => exact absurd ⟨hLength, hPlace, hFree, hRest⟩ h
        · rfl

theorem exists_of_held {tag : Tag} (h : w.creations.held c = some tag) :
    ∃ self, w.characters.lookup c = some self := by
  obtain ⟨self, hSelf, -⟩ := Option.bind_eq_some_iff.mp h
  exact ⟨self, hSelf⟩

theorem getCreate_eq_some {tag : Tag} {leader : Name} {create : GuildCreate}
    (h : w.getCreate tag = some (leader, create)) :
    w.creations.cached tag = some leader ∧
      ∃ self, w.characters.lookup leader = some self ∧ self.guildCreate = some create := by
  unfold getCreate at h
  simp only [Option.bind_eq_bind, Option.bind_eq_some_iff, Option.pure_def, Option.some.injEq, Prod.mk.injEq] at h
  obtain ⟨_, hCached, self, hSelf, _, hCreate, rfl, rfl⟩ := h
  exact ⟨hCached, self, hSelf, hCreate⟩

/-- What is found is in the hand of somebody. -/
theorem getCreate_of_cached {tag : Tag} {leader : Name} {self : Character} {create : GuildCreate}
    (hCached : w.creations.cached tag = some leader) (hSelf : w.characters.lookup leader = some self)
    (hCreate : self.guildCreate = some create) : w.getCreate tag = some (leader, create) := by
  have hFound : w.createCache.lookup tag = some leader := hCached
  simp [getCreate, hFound, hSelf, hCreate]

theorem creations_guildAccept : (w.guildAccept c self).creations = w.creations := by
  have hInvite (v : World) : (v.modifyCharacter c ({ · with guildInvite := none })).creations = v.creations :=
    creations_modifyCharacter fun _ _ => rfl
  unfold guildAccept
  split
  · rfl
  case h_2 tag _ =>
    dsimp only
    rw [hInvite]
    cases hFound : w.getCreate tag with
    | none => rfl
    | some found =>
        obtain ⟨-, leader, hLeader, hCreate⟩ := getCreate_eq_some hFound
        refine creations_modifyCharacter ?_
        intro other hOther
        rw [hLeader] at hOther
        cases hOther
        simp [hCreate]

/-- The guild that is created is the one that its leader holds. -/
theorem held_of_created {tag name description : Bytes} {create : GuildCreate}
    (h : w.created cfg c self tag name description = some create) : w.creations.held c = some create.tag := by
  unfold created at h
  split at h
  · cases h
  · split at h
    · cases h
    · split at h
      · cases h
      case h_2 leader found hFound =>
        split at h
        case isFalse => cases h
        case isTrue hOwn =>
          cases h
          obtain ⟨rfl, -⟩ := hOwn
          obtain ⟨-, owner, hOwner, hCreate⟩ := getCreate_eq_some hFound
          simp [creations, hOwner, hCreate]

theorem creations_guildCreate {tag name description : Bytes} {create : GuildCreate}
    (hCreated : w.created cfg c self tag name description = some create) :
    (w.guildCreate cfg c self tag name description).creations = w.creations.drop c := by
  have hHeld := held_of_created hCreated
  let v := (w.createGuild c create).modifyCharacter c (·.delGold cfg.guildPrice)
  have hBefore : v.creations = ⟨w.creations.held, WeakCache.erase (some create.tag) w.creations.cached⟩ := by
    rw [creations_delGold, creations_createGuild]
  obtain ⟨own, hOwn⟩ : ∃ own, v.characters.lookup c = some own :=
    exists_of_held ((congrArg (·.held c) hBefore).trans hHeld)
  have hDropped := creations_setCreate hOwn none
  rw [hBefore, hHeld] at hDropped
  unfold guildCreate
  rw [hCreated]
  dsimp only
  rw [creations_release, hDropped]
  refine WeakCache.ext rfl ?_
  funext other
  by_cases hTag : create.tag = other
  · simp [WeakCache.drop, WeakCache.erase, hHeld, hTag]
  · simp [WeakCache.drop, WeakCache.erase, hHeld, hTag]

theorem creations_load {row : CharacterRow} {around : Surroundings} (hNew : w.characters.lookup c = none) :
    (w.load c row around).creations = w.creations := by
  have hInsert (v : World) (self : Character) (hFree : self.guildCreate = none)
      (hAbsent : v.characters.lookup c = none) :
      (creations { v with characters := v.characters.insert c self }) = v.creations := by
    refine WeakCache.ext ?_ rfl
    funext name
    show ((v.characters.insert c self).lookup name).bind _ = _
    rw [Table.lookup_insert_eq]
    split
    case isTrue hName => simp [creations, hName, hAbsent, hFree]
    case isFalse => rfl
  unfold load
  split
  · exact hInsert w _ rfl hNew
  case h_2 tag _ =>
    have hSame : (w.getGuild tag).characters = w.characters := by
      unfold getGuild
      split
      · rfl
      · rfl
    exact (hInsert (w.getGuild tag) _ rfl (hSame ▸ hNew)).trans (creations_getGuild tag)

/-- A character that goes lets go of what it holds. -/
theorem creations_unload (hSelf : w.characters.lookup c = some self) :
    (w.unload c self).creations = w.creations.drop c := by
  have hErase (v : World) (hFree : v.creations.held c = none) :
      (creations { v with characters := v.characters.erase c }) = v.creations := by
    refine WeakCache.ext ?_ rfl
    funext name
    show ((v.characters.erase c).lookup name).bind _ = _
    rw [Table.lookup_erase_eq]
    split
    case isTrue hName => rw [hName, hFree, Option.bind_none]
    case isFalse => rfl
  have hSaved : (if self.online then w.save c self else w).creations = w.creations ∧
      (if self.online then w.save c self else w).characters.lookup c = some self := by
    split
    · exact ⟨rfl, hSelf⟩
    · exact ⟨rfl, hSelf⟩
  unfold unload
  generalize (if self.online then w.save c self else w) = saved at hSaved ⊢
  have hDropped : (saved.setCreate c none).creations = w.creations.drop c := by
    rw [creations_setCreate hSaved.2, hSaved.1]
    rfl
  have hErased := hErase (saved.setCreate c none) (by rw [hDropped]; simp [WeakCache.drop])
  dsimp only
  split
  · rw [hErased, hDropped]
  · rw [creations_release, hErased, hDropped]

end Handlers

section Members

variable {cfg : Config} {self : Character}

theorem creations_guildPlayer (tag recruiterName : Bytes) :
    (w.guildPlayer cfg c self tag recruiterName).creations = w.creations := by
  have hJoin (v : World) : (v.modifyCharacter c ({ · with guildJoin := some (.of tag) })).creations = v.creations :=
    creations_modifyCharacter fun _ _ => rfl
  unfold guildPlayer
  split
  · rfl
  · split
    · rfl
    · split
      · rfl
      · split
        · exact hJoin w
        · rfl

theorem creations_guildUse (joiner : Name) : (w.guildUse cfg self joiner).creations = w.creations := by
  unfold guildUse
  split
  · split
    · rfl
    · split
      · simp
      · rfl
  · rfl

theorem creations_guildRemove : (w.guildRemove c self).creations = w.creations := by
  unfold guildRemove
  split
  · rfl
  · split
    · simp
    · rfl

theorem creations_guildKick (name : Bytes) : (w.guildKick cfg self name).creations = w.creations := by
  unfold guildKick
  split
  · rfl
  · split
    · rfl
    · split
      · simp
      · rfl

theorem creations_guildJunk : (w.guildJunk cfg self).creations = w.creations := by
  unfold guildJunk
  split
  · rfl
  · split
    · rfl
    · split
      · simp
      · rfl

theorem creations_guildRank {rank : Int} {name : Bytes} {next : World}
    (h : w.guildRank cfg self rank name = some next) : next.creations = w.creations := by
  unfold guildRank at h
  split at h
  · cases h
    rfl
  · split at h
    · cases h
      rfl
    · split at h
      · exact creations_setMemberRank h
      · cases h
        rfl

theorem creations_guildBuy (gold : Int) : (w.guildBuy cfg c self gold).creations = w.creations := by
  unfold guildBuy
  split
  · rfl
  · split
    · rfl
    · dsimp only
      split
      · rw [creations_modifyGuild]
        exact creations_delGold _
      · rfl

end Members

end World

/-- What an event does to the guilds that are being created. -/
inductive Effect
  | begin (c : Name) (tag : Tag)
  | drop (c : Name)
  | none
  deriving DecidableEq

def Effect.apply (creations : WeakCache Name Tag) : Effect → WeakCache Name Tag
  | begin c tag => creations.begin c tag
  | drop c => creations.drop c
  | none => creations

/-- Who began to create a guild last, for each tag. -/
def Effect.record (latest : Tag → Option Name) : Effect → Tag → Option Name
  | begin c tag => Function.update latest tag (some c)
  | _ => latest

def effect (cfg : Config) (w : World) : Event → Effect
  | .request c tag name =>
      if (w.getCharacterReal c).any fun self => w.Granted cfg self tag name then .begin c (.of tag) else .none
  | .create c tag name description =>
      if (w.getCharacterReal c).any fun self => (w.created cfg c self tag name description).isSome then .drop c
      else .none
  | .leave c => .drop c
  | _ => .none

/-- Every event does no more than its effect. -/
theorem step_creations {cfg : Config} {w next : World} {event : Event} (hStep : step cfg w event = some next) :
    next.creations = (effect cfg w event).apply w.creations := by
  cases event with
  | request c tag name =>
      obtain ⟨self, hSelf, rfl⟩ := Option.map_eq_some_iff.mp hStep
      have hHere : w.characters.lookup c = some self := (Option.filter_eq_some_iff.mp hSelf).1
      by_cases hGranted : w.Granted cfg self tag name
      · simp only [effect, hSelf, Option.any_some, hGranted, decide_true, if_true]
        exact World.creations_request_granted hHere hGranted
      · simp only [effect, hSelf, Option.any_some, hGranted, decide_false, Bool.false_eq_true, if_false]
        exact World.creations_request_refused hGranted
  | accept c =>
      obtain ⟨self, -, rfl⟩ := Option.map_eq_some_iff.mp hStep
      exact World.creations_guildAccept
  | create c tag name description =>
      obtain ⟨self, hSelf, rfl⟩ := Option.map_eq_some_iff.mp hStep
      cases hCreated : w.created cfg c self tag name description with
      | none =>
          simp only [effect, hSelf, Option.any_some, hCreated, Option.isSome_none, Bool.false_eq_true, if_false]
          unfold World.guildCreate
          rw [hCreated]
          rfl
      | some create =>
          simp only [effect, hSelf, Option.any_some, hCreated, Option.isSome_some, if_true]
          exact World.creations_guildCreate hCreated
  | player c tag recruiterName =>
      obtain ⟨self, -, rfl⟩ := Option.map_eq_some_iff.mp hStep
      exact World.creations_guildPlayer tag recruiterName
  | use c joiner =>
      obtain ⟨self, -, rfl⟩ := Option.map_eq_some_iff.mp hStep
      exact World.creations_guildUse joiner
  | remove c =>
      obtain ⟨self, -, rfl⟩ := Option.map_eq_some_iff.mp hStep
      exact World.creations_guildRemove
  | kick c name =>
      obtain ⟨self, -, rfl⟩ := Option.map_eq_some_iff.mp hStep
      exact World.creations_guildKick name
  | junk c =>
      obtain ⟨self, -, rfl⟩ := Option.map_eq_some_iff.mp hStep
      exact World.creations_guildJunk
  | rank c rank name =>
      obtain ⟨self, -, hRank⟩ := Option.bind_eq_some_iff.mp hStep
      exact World.creations_guildRank hRank
  | buy c gold =>
      obtain ⟨self, -, rfl⟩ := Option.map_eq_some_iff.mp hStep
      exact World.creations_guildBuy gold
  | guildrank c value =>
      obtain ⟨self, -, rfl⟩ := Option.map_eq_some_iff.mp hStep
      exact World.creations_modifyCharacter fun _ _ => rfl
  | load c around =>
      dsimp only [step] at hStep
      split at hStep
      case h_1 row hNew hRow =>
        cases hStep
        exact World.creations_load hNew
      · cases hStep
  | enter c =>
      obtain ⟨self, -, rfl⟩ := Option.map_eq_some_iff.mp hStep
      exact World.creations_modifyCharacter fun _ _ => rfl
  | leave c =>
      obtain ⟨self, hSelf, rfl⟩ := Option.map_eq_some_iff.mp hStep
      exact World.creations_unload hSelf
  | timedSave =>
      cases hStep
      rfl
  | warp c around =>
      obtain ⟨self, -, rfl⟩ := Option.map_eq_some_iff.mp hStep
      exact World.creations_modifyCharacter fun _ _ => rfl
  | surroundings c around =>
      obtain ⟨self, -, rfl⟩ := Option.map_eq_some_iff.mp hStep
      exact World.creations_modifyCharacter fun _ _ => rfl

/-- A server, and who was the last to begin a guild for each tag. The program does not keep that. -/
structure Tracked where
  world : World
  latest : Tag → Option Name

def trackedStep (cfg : Config) (s : Tracked) (event : Event) : Option Tracked :=
  (step cfg s.world event).map fun next => ⟨next, (effect cfg s.world event).record s.latest⟩

/-- The guild that was begun last for a tag is found, as long as its leader has it. -/
def Findable (s : Tracked) : Prop :=
  ∀ tag leader self create, s.latest tag = some leader → s.world.characters.lookup leader = some self →
    self.guildCreate = some create → create.tag = tag → s.world.getCreate tag = some (leader, create)

def Effect.Loses (creations : WeakCache Name Tag) : Effect → Prop
  | begin c tag => creations.Orphans c ∨ creations.held c = some tag
  | drop c => creations.Orphans c
  | none => False

instance (creations : WeakCache Name Tag) (effect : Effect) : Decidable (effect.Loses creations) := by
  cases effect
  all_goals
    unfold Effect.Loses
    infer_instance

/-- Somebody begins a guild or leaves the game, and has one for whose tag the guild of somebody else is
found; or begins one for the tag of the guild that he has. -/
def Loses (cfg : Config) (s : Tracked) (event : Event) : Prop :=
  (effect cfg s.world event).Loses s.world.creations

instance (cfg : Config) (s : Tracked) (event : Event) : Decidable (Loses cfg s event) :=
  inferInstanceAs (Decidable (Effect.Loses _ _))

theorem findable_iff {s : Tracked} : Findable s ↔ s.world.creations.Reachable s.latest := by
  constructor
  · intro h tag leader hLatest hHeld
    obtain ⟨self, hSelf, hTag⟩ := Option.bind_eq_some_iff.mp hHeld
    obtain ⟨create, hCreate, hTag⟩ := Option.map_eq_some_iff.mp hTag
    exact (World.getCreate_eq_some (h tag leader self create hLatest hSelf hCreate hTag)).1
  · intro h tag leader self create hLatest hSelf hCreate hTag
    have hHeld : s.world.creations.held leader = some tag := by
      simp [World.creations, hSelf, hCreate, hTag]
    exact World.getCreate_of_cached (h tag leader hLatest hHeld) hSelf hCreate

theorem Effect.inv_apply {creations : WeakCache Name Tag} {latest : Tag → Option Name} {effect : Effect}
    (h : creations.Inv latest) (hGood : ¬effect.Loses creations) :
    (effect.apply creations).Inv (effect.record latest) := by
  cases effect with
  | begin c tag =>
      obtain ⟨hSafe, hNew⟩ := not_or.mp hGood
      exact h.begin hSafe hNew
  | drop c => exact h.drop hGood
  | none => exact h

theorem Effect.not_reachable {creations : WeakCache Name Tag} {latest : Tag → Option Name} {effect : Effect}
    (h : creations.Inv latest) (hBad : effect.Loses creations) :
    ¬(effect.apply creations).Reachable (effect.record latest) := by
  cases effect with
  | begin c tag =>
      by_cases hAgain : creations.held c = some tag
      · exact WeakCache.not_reachable_again hAgain
      · exact (hBad.resolve_right hAgain).begin h hAgain
  | drop c => exact WeakCache.Orphans.drop h hBad
  | none => exact hBad.elim

/-- What is found is what was begun last. -/
def Tracked.Inv (s : Tracked) : Prop := s.world.creations.Inv s.latest

def Tracked.start (characterRows : Table Name CharacterRow) (guildRows : Table Tag GuildRow) : Tracked :=
  ⟨.start characterRows guildRows, fun _ => none⟩

theorem Tracked.inv_start (characterRows : Table Name CharacterRow) (guildRows : Table Tag GuildRow) :
    (Tracked.start characterRows guildRows).Inv := by
  refine ⟨?_, ?_, ?_⟩
  · intro tag c hLatest
    cases hLatest
  · intro tag c hCached
    cases hCached
  · intro tag c hCached
    cases hCached

/-- In a run, what was begun last for a tag is found as long as its leader has it exactly if nobody lets
go of a guild for whose tag a newer one is found. -/
theorem creations_found_iff (cfg : Config) (characterRows : Table Name CharacterRow) (guildRows : Table Tag GuildRow)
    (events : List Event) :
    Always (trackedStep cfg) Findable (.start characterRows guildRows) events ↔
      Avoids (trackedStep cfg) (Loses cfg) (.start characterRows guildRows) events := by
  have hProperty (s : Tracked) (h : s.Inv) : Findable s := findable_iff.mpr h.reachable
  have hKeep (s : Tracked) (event : Event) (next : Tracked) (h : s.Inv) (hGood : ¬Loses cfg s event)
      (hStep : trackedStep cfg s event = some next) : next.Inv := by
    obtain ⟨after, hAfter, rfl⟩ := Option.map_eq_some_iff.mp hStep
    unfold Tracked.Inv
    rw [step_creations hAfter]
    exact Effect.inv_apply h hGood
  have hBreak (s : Tracked) (event : Event) (next : Tracked) (h : s.Inv) (hBad : Loses cfg s event)
      (hStep : trackedStep cfg s event = some next) : ¬Findable next := by
    obtain ⟨after, hAfter, rfl⟩ := Option.map_eq_some_iff.mp hStep
    rw [findable_iff, step_creations hAfter]
    exact Effect.not_reachable h hBad
  exact always_iff_avoids hProperty hKeep hBreak (Tracked.inv_start characterRows guildRows) events

/-- Ann and Eve want a guild with the same tag, and Ann leaves the game. -/
def sameTag : List Event := arrivals ++
  [.request ann newTag newName, .request eve newTag newName, .leave ann]

/-- The guild of Eve is not found any more, though it was the last one for the tag. -/
theorem creation_lost : ¬Always (trackedStep smallConfig) Findable (.start smallRows smallGuilds) sameTag := by
  intro h
  have hEnd : ∃ s ∈ run (trackedStep smallConfig) (.start smallRows smallGuilds) sameTag,
      s.latest (.of newTag) = some eve ∧ (∃ self ∈ s.world.characters.lookup eve,
        ∃ create ∈ self.guildCreate, create.tag = .of newTag) ∧ s.world.getCreate (.of newTag) = none := by
    decide
  obtain ⟨s, hRun, hLatest, ⟨self, hSelf, create, hCreate, hTag⟩, hNone⟩ := hEnd
  have hFound := h sameTag s List.prefix_rfl hRun (.of newTag) eve self create hLatest hSelf hCreate hTag
  rw [hNone] at hFound
  cases hFound

end Etheos.Guilds
