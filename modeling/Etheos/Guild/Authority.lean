import Etheos.Guild.Runs

/-! What members may do to the ranks of other members. -/
namespace Etheos.Guilds

open General

/-- The requests about a member that a character of its guild sends. -/
inductive RankRequest
  | kick (c : Name) (name : Bytes)
  | rank (c : Name) (rank : Int) (name : Bytes)
  deriving DecidableEq

def RankRequest.sender : RankRequest → Name
  | .kick c _ => c
  | .rank c _ _ => c

def RankRequest.event : RankRequest → Event
  | .kick c name => .kick c name
  | .rank c newRank name => .rank c newRank name

def rankStep (cfg : Config) (w : World) (request : RankRequest) : Option World := step cfg w request.event

/-- The ranks of all members are ranks of a guild. -/
structure Ranked (w : World) : Prop where
  members : ∀ tag guild, w.cache.lookup tag = some guild →
    ∀ member ∈ guild.members, 0 ≤ member.rank ∧ member.rank ≤ 9
  characters : ∀ c self, w.characters.lookup c = some self → self.guild ≠ none →
    0 ≤ self.guildRank ∧ self.guildRank ≤ 9

/-- What somebody with the rank `own` may do to a member with the rank `old`. One that is
kicked has no new rank. -/
def Permitted (own old : Int) (new : Option Int) : Prop :=
  old ≠ 0 ∧ (own = 0 ∨ own < old) ∧ ∀ rank ∈ new, own ≤ rank ∧ 0 ≤ rank ∧ rank ≤ 9

/-- At most one member is kicked or gets another rank, and that is permitted. -/
inductive Reranked (own : Int) : List GuildMember → List GuildMember → Prop
  | same (members : List GuildMember) : Reranked own members members
  | kicked (before : List GuildMember) (target : GuildMember) (after : List GuildMember)
      (permitted : Permitted own target.rank none) : Reranked own (before ++ target :: after) (before ++ after)
  | ranked (before : List GuildMember) (target : GuildMember) (after : List GuildMember) (new : Int)
      (permitted : Permitted own target.rank (some new)) :
      Reranked own (before ++ target :: after) (before ++ { target with rank := new } :: after)

/-- What a request did to a character that the guild of the sender lists as `target`. -/
def Treated (own : Int) (target : GuildMember) (old new : Character) : Prop :=
  new.guild = none ∧ Permitted own target.rank none ∨
    new.guild = old.guild ∧ Permitted own target.rank (some new.guildRank)

/-- A request of the character kept to the ranks, in the lists of the guilds and at the characters. -/
structure Respects (w : World) (sender : Character) (next : World) : Prop where
  members : ∀ tag guild guild', w.cache.lookup tag = some guild → next.cache.lookup tag = some guild' →
    guild'.members = guild.members ∨
      sender.guild = some tag ∧ Reranked sender.guildRank guild.members guild'.members
  characters : ∀ c other, w.characters.lookup c = some other → ∃ other', next.characters.lookup c = some other' ∧
    (other'.guild = other.guild ∧ other'.guildRank = other.guildRank ∨
      ∃ tag guild target, sender.guild = some tag ∧ w.cache.lookup tag = some guild ∧
        guild.getMember c = some target ∧ Treated sender.guildRank target other other')
  closed : ∀ tag, w.cache.lookup tag = none → next.cache.lookup tag = none
  absent : ∀ c, w.characters.lookup c = none → next.characters.lookup c = none

/-- The request is answered, without a look past the rank names, and as the ranks demand. -/
def Authorised (cfg : Config) (w : World) (request : RankRequest) : Prop :=
  ∀ self, w.getCharacterReal request.sender = some self →
    ∃ next, rankStep cfg w request = some next ∧ Respects w self next

/-- The rank 10 is asked for, and the checks let it through. -/
def AsksTen (cfg : Config) (w : World) : RankRequest → Prop
  | .kick _ _ => False
  | .rank c rank name => rank = 10 ∧ name.length ≤ 12 ∧ ∃ self ∈ w.getCharacterReal c, self.around.guildNpc = true ∧
      ∃ tag ∈ self.guild, ∃ guild ∈ w.cache.lookup tag, ∃ target ∈ guild.getMember (.of name),
        World.maySetRank cfg self target 10 = true

instance (cfg : Config) (w : World) (request : RankRequest) : Decidable (AsksTen cfg w request) := by
  cases request <;> unfold AsksTen <;> infer_instance

section Checks

variable {cfg : Config} {w : World} {self : Character} {target : GuildMember} {rank : Int} {name : Bytes}

theorem rankIndex_isSome (rank : Int) : (rankIndex rank).isSome ↔ rank ≤ 9 := by
  unfold rankIndex
  split
  · exact iff_of_true rfl (by omega)
  · exact iff_of_false nofun (by omega)

theorem maySetRank_permitted (hRank : 0 ≤ rank ∧ rank ≤ 9)
    (h : World.maySetRank cfg self target rank = true) : Permitted self.guildRank target.rank (some rank) := by
  unfold World.maySetRank at h
  split at h
  · cases h
  case isFalse hFounder =>
    split at h
    case isTrue hZero =>
      have hOwnZero : self.guildRank = 0 := by
        simp only [Bool.and_eq_true, decide_eq_true_eq] at h
        exact h.1
      refine ⟨hFounder, .inl hOwnZero, fun new hNew => ?_⟩
      obtain rfl := Option.some.inj hNew
      omega
    case isFalse hNonzero =>
      simp only [Bool.and_eq_true, Bool.or_eq_true, decide_eq_true_eq] at h
      obtain ⟨⟨-, hOutranks⟩, hAbove⟩ := h
      refine ⟨hFounder, hOutranks, fun new hNew => ?_⟩
      obtain rfl := Option.some.inj hNew
      omega

theorem getMember_name {guild : Guild} {c : Name} (h : guild.getMember c = some target) : target.name = c :=
  Entries.of_found (p := fun member : GuildMember => member.name = c) h

theorem guildKick_cases (cfg : Config) (w : World) (self : Character) (name : Bytes) :
    w.guildKick cfg self name = w ∨
      ∃ tag guild target, self.guild = some tag ∧ w.cache.lookup tag = some guild ∧
        guild.getMember (.of name) = some target ∧ self.guildRank < target.rank ∧
        w.guildKick cfg self name = (w.delMember tag (.of name)).release tag := by
  unfold World.guildKick
  cases hGuild : self.guild with
  | none => exact .inl rfl
  | some tag =>
      dsimp only
      cases hFound : (w.cache.lookup tag).bind (·.getMember (.of name)) with
      | none => exact .inl rfl
      | some target =>
          obtain ⟨guild, hCached, hTarget⟩ := Option.bind_eq_some_iff.mp hFound
          dsimp only
          split
          case isTrue hChecks => exact .inr ⟨tag, guild, target, rfl, hCached, hTarget, hChecks.2.2.2, rfl⟩
          case isFalse => exact .inl rfl

/-- What the request finds out before the rank is set. -/
theorem guildRank_cases (cfg : Config) (w : World) (self : Character) (rank : Int) (name : Bytes) :
    w.guildRank cfg self rank name = some w ∨
      ∃ tag guild target, self.guild = some tag ∧ w.cache.lookup tag = some guild ∧
        guild.getMember (.of name) = some target ∧ (0 ≤ rank ∧ rank ≤ 10) ∧ name.length ≤ 12 ∧
        self.around.guildNpc = true ∧ World.maySetRank cfg self target rank = true ∧
        w.guildRank cfg self rank name =
          if rank ≤ 9 then some (w.changeMemberRank tag target.name rank) else none := by
  unfold World.guildRank
  cases hGuild : self.guild with
  | none => exact .inl rfl
  | some tag =>
      dsimp only
      cases hFound : (w.cache.lookup tag).bind (·.getMember (.of name)) with
      | none => exact .inl rfl
      | some target =>
          obtain ⟨guild, hCached, hTarget⟩ := Option.bind_eq_some_iff.mp hFound
          dsimp only
          split
          case isFalse => exact .inl rfl
          case isTrue hChecks =>
            obtain ⟨hRange, hNpc, hMay⟩ := hChecks
            refine .inr ⟨tag, guild, target, rfl, hCached, hTarget, by omega, by omega, hNpc, hMay, ?_⟩
            have hAgain : (w.cache.lookup tag).bind (·.getMember target.name) = some target := by
              rw [getMember_name hTarget]
              exact hFound
            unfold World.setMemberRank
            rw [hAgain]
            cases hIndex : rankIndex rank with
            | none =>
                rw [if_neg]
                intro hLow
                have hSome := (rankIndex_isSome rank).mpr hLow
                rw [hIndex] at hSome
                cases hSome
            | some index => rw [if_pos ((rankIndex_isSome rank).mp (by rw [hIndex]; rfl))]

end Checks

section Effects

variable {cfg : Config} {w : World} {self : Character} {tag : Tag} {guild : Guild} {target : GuildMember}

theorem changeMember_cache (w : World) (name : Name) (f : Character → Character) (row : CharacterRow → CharacterRow) :
    (w.changeMember name f row).cache = w.cache := by
  unfold World.changeMember
  dsimp only
  split
  · rfl
  · rfl

theorem changeMember_characters (w : World) (name : Name) (f : Character → Character)
    (row : CharacterRow → CharacterRow) :
    (w.changeMember name f row).characters = w.characters.modify name f := by
  unfold World.changeMember
  dsimp only
  split
  · rfl
  · rfl

theorem release_characters (w : World) (tag : Tag) : (w.release tag).characters = w.characters := by
  unfold World.release World.destroy World.saveGuild
  split
  · split
    · rfl
    · dsimp only
      split
      · rfl
      · rfl
  · rfl

/-- A guild in memory was there before. -/
theorem release_cache {other : Tag} {guild : Guild} (h : (w.release tag).cache.lookup other = some guild) :
    w.cache.lookup other = some guild := by
  have hErased : (w.cache.erase tag).lookup other = some guild → w.cache.lookup other = some guild := by
    rw [Table.lookup_erase_eq]
    split
    · exact nofun
    · exact id
  unfold World.release World.destroy World.saveGuild at h
  split at h
  · split at h
    · exact h
    · dsimp only at h
      split at h
      · exact hErased h
      · exact hErased h
  · exact h

/-- One character and the list of one guild are changed. -/
theorem respects_of_change {next : World} {name : Name} {f : Character → Character} {g : Guild → Guild}
    (hGuild : self.guild = some tag) (hCached : w.cache.lookup tag = some guild)
    (hTarget : guild.getMember name = some target)
    (hCache : ∀ other guild', next.cache.lookup other = some guild' →
      (w.cache.modify tag g).lookup other = some guild')
    (hCharacters : next.characters = w.characters.modify name f)
    (hMembers : Reranked self.guildRank guild.members (g guild).members)
    (hTreated : ∀ other, Treated self.guildRank target other (f other)) : Respects w self next where
  members other before after hBefore hAfter := by
    have hModified := hCache other after hAfter
    rw [Table.lookup_modify, hBefore] at hModified
    split at hModified
    case isTrue hTag =>
      obtain rfl := hTag
      cases hModified
      rw [hCached] at hBefore
      cases hBefore
      exact .inr ⟨hGuild, hMembers⟩
    case isFalse =>
      cases hModified
      exact .inl rfl
  characters c other hOther := by
    rw [hCharacters, Table.lookup_modify, hOther]
    split
    case isTrue hName => exact ⟨f other, rfl, .inr ⟨tag, guild, target, hGuild, hCached, hName ▸ hTarget, hTreated other⟩⟩
    case isFalse => exact ⟨other, rfl, .inl ⟨rfl, rfl⟩⟩
  closed other hClosed := by
    refine Option.eq_none_iff_forall_ne_some.mpr fun guild' hOpen => ?_
    have hModified := hCache other guild' hOpen
    rw [Table.lookup_modify, hClosed, Option.map_none, ite_self] at hModified
    cases hModified
  absent c hAbsent := by rw [hCharacters, Table.lookup_modify, hAbsent, Option.map_none, ite_self]

theorem respects_same (w : World) (self : Character) : Respects w self w where
  members tag guild guild' hBefore hAfter := by
    rw [hBefore] at hAfter
    cases hAfter
    exact .inl rfl
  characters c other hOther := ⟨other, hOther, .inl ⟨rfl, rfl⟩⟩
  closed _ hClosed := hClosed
  absent _ hAbsent := hAbsent

theorem respects_kick (hSelf : 0 ≤ self.guildRank) (hGuild : self.guild = some tag)
    (hCached : w.cache.lookup tag = some guild) {name : Name} (hTarget : guild.getMember name = some target)
    (hOutranks : self.guildRank < target.rank) : Respects w self ((w.delMember tag name).release tag) := by
  have hPermitted : Permitted self.guildRank target.rank none := ⟨by omega, .inr hOutranks, nofun⟩
  let erase (guild : Guild) : Guild := { guild with members := Entries.eraseFirst (·.name = name) guild.members }
  refine respects_of_change (f := ({ · with guild := none, guildRank := 0 })) (g := erase) hGuild hCached hTarget
    (fun other guild' h => ?_) ?_ ?_ fun other => .inl ⟨rfl, hPermitted⟩
  · have hBefore := release_cache h
    rw [World.delMember, World.modifyGuild, changeMember_cache] at hBefore
    exact hBefore
  · rw [release_characters, World.delMember, World.modifyGuild, changeMember_characters]
  · obtain ⟨before, after, hMembers, hErased⟩ := Entries.eraseFirst_split hTarget
    show Reranked _ _ (Entries.eraseFirst _ _)
    rw [hErased, hMembers]
    exact .kicked before target after hPermitted

theorem respects_rank (hGuild : self.guild = some tag) (hCached : w.cache.lookup tag = some guild) {name : Name}
    (hTarget : guild.getMember name = some target) {rank : Int}
    (hPermitted : Permitted self.guildRank target.rank (some rank)) :
    Respects w self (w.changeMemberRank tag name rank) := by
  let change (guild : Guild) : Guild :=
    { guild with members := Entries.modifyFirst (·.name = name) ({ · with rank := rank }) guild.members }
  refine respects_of_change (f := ({ · with guildRank := rank })) (g := change) hGuild hCached hTarget
    (fun other guild' h => ?_) ?_ ?_ fun other => .inr ⟨rfl, hPermitted⟩
  · rw [World.changeMemberRank, World.modifyGuild, changeMember_cache] at h
    exact h
  · rw [World.changeMemberRank, World.modifyGuild, changeMember_characters]
  · obtain ⟨before, after, hMembers, hModified⟩ := Entries.modifyFirst_split hTarget ({ · with rank := rank })
    show Reranked _ _ (Entries.modifyFirst _ _ _)
    rw [hModified, hMembers]
    exact .ranked before target after rank hPermitted

/-- What is permitted gives ranks of a guild only. -/
theorem Reranked.ranked_members {own : Int} {members members' : List GuildMember} (h : Reranked own members members')
    (hRanked : ∀ member ∈ members, 0 ≤ member.rank ∧ member.rank ≤ 9) :
    ∀ member ∈ members', 0 ≤ member.rank ∧ member.rank ≤ 9 := by
  cases h with
  | same => exact hRanked
  | kicked before target after =>
      rw [List.forall_mem_append, List.forall_mem_cons] at hRanked
      exact List.forall_mem_append.mpr ⟨hRanked.1, hRanked.2.2⟩
  | ranked before target after new permitted =>
      rw [List.forall_mem_append, List.forall_mem_cons] at hRanked
      have hNew := (permitted.2.2 new rfl).2
      exact List.forall_mem_append.mpr ⟨hRanked.1, List.forall_mem_cons.mpr ⟨hNew, hRanked.2.2⟩⟩

end Effects

section Runs

variable {cfg : Config} {w : World} {request : RankRequest}

/-- Ranks stay ranks of a guild where the ranks are respected. -/
theorem Respects.ranked {self : Character} {next : World} (h : Respects w self next) (hRanked : Ranked w) :
    Ranked next where
  members tag guild hCached := by
    obtain ⟨old, hOld⟩ := Option.ne_none_iff_exists'.mp fun hClosed => by simp [h.closed tag hClosed] at hCached
    rcases h.members tag old guild hOld hCached with hSame | ⟨-, hReranked⟩
    · rw [hSame]
      exact hRanked.members tag old hOld
    · exact hReranked.ranked_members (hRanked.members tag old hOld)
  characters c other hOther hGuild := by
    obtain ⟨old, hOld⟩ := Option.ne_none_iff_exists'.mp fun hAbsent => by simp [h.absent c hAbsent] at hOther
    obtain ⟨other', hOther', hChanged⟩ := h.characters c old hOld
    rw [hOther] at hOther'
    cases hOther'
    obtain ⟨hSame, hRank⟩ | ⟨tag, guild, target, -, -, -, ⟨hNone, -⟩ | ⟨-, hPermitted⟩⟩ := hChanged
    · rw [hRank]
      exact hRanked.characters c old hOld (hSame ▸ hGuild)
    · exact absurd hNone hGuild
    · exact (hPermitted.2.2 other.guildRank rfl).2

/-- A kick comes to an end. -/
theorem kick_respects (hRanked : Ranked w) {c : Name} {self : Character} (hSelf : w.getCharacterReal c = some self)
    (name : Bytes) : Respects w self (w.guildKick cfg self name) := by
  obtain hSame | ⟨tag, guild, target, hGuild, hCached, hTarget, hOutranks, hKicked⟩ :=
    guildKick_cases cfg w self name
  · rw [hSame]
    exact respects_same w self
  · have hLookup := (World.getCharacterReal_eq_some.mp hSelf).1
    have hOwn := hRanked.characters c self hLookup (by rw [hGuild]; exact nofun)
    rw [hKicked]
    exact respects_kick hOwn.1 hGuild hCached hTarget hOutranks

/-- A rank other than 10 is in the range of the ranks. -/
theorem rank_respects {c : Name} {self : Character} (hSelf : w.getCharacterReal c = some self) {rank : Int}
    {name : Bytes} (hGood : ¬AsksTen cfg w (.rank c rank name)) :
    ∃ next, w.guildRank cfg self rank name = some next ∧ Respects w self next := by
  obtain hSame | ⟨tag, guild, target, hGuild, hCached, hTarget, hRange, hLength, hNpc, hMay, hResult⟩ :=
    guildRank_cases cfg w self rank name
  · exact ⟨w, hSame, respects_same w self⟩
  · have hLow : rank ≤ 9 := by
      by_contra hHigh
      obtain rfl : rank = 10 := by omega
      exact hGood ⟨rfl, hLength, self, hSelf, hNpc, tag, hGuild, guild, hCached, target, hTarget, hMay⟩
    rw [hResult, if_pos hLow, getMember_name hTarget]
    exact ⟨_, rfl, respects_rank hGuild hCached hTarget (maySetRank_permitted ⟨hRange.1, hLow⟩ hMay)⟩

theorem rank_ten {c : Name} {self : Character} {rank : Int} {name : Bytes}
    (hSelf : w.getCharacterReal c = some self) (hBad : AsksTen cfg w (.rank c rank name)) :
    w.guildRank cfg self rank name = none := by
  obtain ⟨rfl, hLength, other, hOther, hNpc, tag, hGuild, guild, hCached, target, hTarget, hMay⟩ := hBad
  rw [Option.mem_def, hSelf] at hOther
  cases hOther
  have hFound : (w.cache.lookup tag).bind (·.getMember (.of name)) = some target := by
    rw [hCached, Option.bind_some]
    exact hTarget
  have hAgain : (w.cache.lookup tag).bind (·.getMember target.name) = some target := by
    rw [getMember_name hTarget]
    exact hFound
  unfold World.guildRank World.setMemberRank
  rw [hGuild]
  dsimp only
  rw [hFound]
  dsimp only
  rw [if_pos ⟨by omega, hNpc, hMay⟩, hAgain]
  rfl

/-- A request is answered as the ranks demand exactly if it does not ask for the rank 10. -/
theorem authorised_iff (hRanked : Ranked w) : Authorised cfg w request ↔ ¬AsksTen cfg w request := by
  cases request with
  | kick c name =>
      refine iff_of_true (fun self hSelf => ?_) id
      refine ⟨w.guildKick cfg self name, ?_, kick_respects hRanked hSelf name⟩
      rw [rankStep, RankRequest.event, step, show w.getCharacterReal c = some self from hSelf]
      rfl
  | rank c rank name =>
      constructor
      · intro h hBad
        obtain ⟨-, -, self, hSelf, -⟩ := id hBad
        obtain ⟨next, hNext, -⟩ := h self hSelf
        rw [rankStep, RankRequest.event, step, show w.getCharacterReal c = some self from hSelf, Option.bind_some,
          rank_ten hSelf hBad] at hNext
        cases hNext
      · intro hGood self hSelf
        obtain ⟨next, hNext, hRespects⟩ := rank_respects hSelf hGood
        refine ⟨next, ?_, hRespects⟩
        rw [rankStep, RankRequest.event, step, show w.getCharacterReal c = some self from hSelf]
        exact hNext

theorem rankStep_ranked (cfg : Config) (w : World) (request : RankRequest) (next : World) (hRanked : Ranked w)
    (hStep : rankStep cfg w request = some next) : Ranked next := by
  obtain ⟨self, hSelf⟩ : ∃ self, w.getCharacterReal request.sender = some self := by
    cases request with
    | kick c name => exact ⟨_, (Option.map_eq_some_iff.mp hStep).choose_spec.1⟩
    | rank c rank name => exact ⟨_, (Option.bind_eq_some_iff.mp hStep).choose_spec.1⟩
  by_cases hBad : AsksTen cfg w request
  · cases request with
    | kick => exact hBad.elim
    | rank c rank name =>
        obtain ⟨self, hSelf, hNext⟩ := Option.bind_eq_some_iff.mp hStep
        rw [rank_ten hSelf hBad] at hNext
        cases hNext
  · obtain ⟨next', hNext', hRespects⟩ := (authorised_iff hRanked).mpr hBad self hSelf
    rw [hStep] at hNext'
    cases hNext'
    exact hRespects.ranked hRanked

theorem ranked_of_entries (hMembers : ∀ entry ∈ w.cache.entries, ∀ member ∈ entry.2.members,
      0 ≤ member.rank ∧ member.rank ≤ 9)
    (hCharacters : ∀ entry ∈ w.characters.entries, 0 ≤ entry.2.guildRank ∧ entry.2.guildRank ≤ 9) : Ranked w where
  members tag guild hCached := hMembers ⟨tag, guild⟩ (AList.mem_lookup_iff.mp hCached)
  characters c self hSelf _ := hCharacters ⟨c, self⟩ (AList.mem_lookup_iff.mp hSelf)

/-- The guild of Bob, which Eve has joined. -/
def bobsGuild : World :=
  (run (step smallConfig) (.start smallRows smallGuilds)
    (arrivals ++ [.player eve oldTag [98], .use bob eve])).getD (.start ∅ ∅)

/-- All ranks stay ranks of a guild, and every request is answered as the ranks demand, exactly
as long as none of those that are met asks for the rank 10. -/
theorem ranks_respected_iff (cfg : Config) (w : World) (hRanked : Ranked w) (requests : List RankRequest) :
    Always (rankStep cfg) Ranked w requests ∧ Meets (rankStep cfg) (Authorised cfg) w requests ↔
      Meets (rankStep cfg) (fun w request => ¬AsksTen cfg w request) w requests := by
  have hAlways := always_of_invariant (rankStep_ranked cfg) hRanked requests
  rw [and_iff_right hAlways]
  exact hAlways.meets_iff fun s request h => authorised_iff h

/-- Bob raises Eve and kicks her. -/
theorem ranks_respected_bob :
    Always (rankStep smallConfig) Ranked bobsGuild [.rank bob 2 [101], .kick bob [101]] ∧
      Meets (rankStep smallConfig) (Authorised smallConfig) bobsGuild [.rank bob 2 [101], .kick bob [101]] := by
  have hRanked : Ranked bobsGuild := ranked_of_entries (by decide) (by decide)
  refine (ranks_respected_iff smallConfig bobsGuild hRanked _).mpr (meets_of_forall ?_)
  simp [AsksTen]

/-- Bob asks for the rank 10 of Eve, and it is the tenth of nine names that is read. -/
theorem ranks_not_respected_ten :
    ¬(Always (rankStep smallConfig) Ranked bobsGuild [.rank bob 10 [101]] ∧
      Meets (rankStep smallConfig) (Authorised smallConfig) bobsGuild [.rank bob 10 [101]]) := by
  rintro ⟨-, hMeets⟩
  obtain ⟨self, hSelf⟩ : ∃ self, bobsGuild.getCharacterReal bob = some self :=
    Option.isSome_iff_exists.mp (by decide)
  obtain ⟨next, hNext, -⟩ := hMeets [] _ bobsGuild List.prefix_rfl rfl self hSelf
  have hNone : rankStep smallConfig bobsGuild (.rank bob 10 [101]) = none := by decide
  rw [hNone] at hNext
  cases hNext

end Runs

end Etheos.Guilds
