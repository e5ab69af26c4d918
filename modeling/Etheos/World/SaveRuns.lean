import Etheos.World.SaveOutcome

/-! What the timed saves store, along the runs of the server. -/
namespace Etheos.TimedSaves

open General
open Guilds (Tag Ranks textWordWrap)

/-- The row of a guild says what is in memory. -/
def Stores (tables : Tables) (tag : Tag) (guild : Guild) : Prop :=
  ∃ row, tables.guilds.lookup tag = some row ∧ row.description = guild.description ∧
    Ranks.unserialize row.ranks = guild.ranks ∧ row.bank = guild.bank

/-- Everything is stored, and what was audited exactly once. -/
structure Saved (s : Server) : Prop where
  guilds : ∀ tag guild, s.guilds.lookup tag = some guild → Stores s.db.stored tag guild
  audited : s.db.stored.commandAudit = s.audited

/-- Nothing of the save fails, so that it is committed. -/
structure Succeeds (s : Server) (failures : Failures) : Prop where
  begun : failures.begin = false
  statements : true ∉ failures.statements.take (s.statements + s.commandAuditUncommitted.length)
  commit : failures.commit = false

/-- A timed save that comes now and is committed stores everything. -/
def Recovers (s : Server) : Prop := ∀ failures, Succeeds s failures → Saved (s.timedSave failures)

section Recovery

variable {s : Server}

/-- What is stored now together with what is still to be saved. -/
structure Kept (s : Server) : Prop where
  rows : ∀ tag guild, s.guilds.lookup tag = some guild → (s.db.stored.guilds.lookup tag).isSome = true
  clean : ∀ tag guild, s.guilds.lookup tag = some guild → guild.needsSave = false → Stores s.db.stored tag guild
  audited : s.db.stored.commandAudit ++ s.commandAuditUncommitted.map (·.row) = s.audited

theorem stores_row {tables : Tables} {tag : Tag} {guild : Guild} {row : GuildRow}
    (hRow : tables.guilds.lookup tag = some row) (hGuild : guild.row = row) : Stores tables tag guild := by
  subst hGuild
  exact ⟨guild.row, hRow, rfl, guild.ranks.unserialize_serialize, rfl⟩

theorem stores_congr {tables tables' : Tables} {tag : Tag} {guild guild' : Guild}
    (hTables : tables'.guilds.lookup tag = tables.guilds.lookup tag) (hDescription : guild'.description = guild.description)
    (hRanks : guild'.ranks = guild.ranks) (hBank : guild'.bank = guild.bank) :
    Stores tables' tag guild' ↔ Stores tables tag guild := by
  unfold Stores
  rw [hTables, hDescription, hRanks, hBank]

/-- What a save that was committed says of a guild. -/
theorem GuildsSaved.stores_iff {f : Tables → Tables} {guilds : Table Tag Guild}
    (h : GuildsSaved s.guilds s.guilds.keys f guilds) {tag : Tag} {guild : Guild}
    (hGuild : s.guilds.lookup tag = some guild) (rows : List AuditRow) :
    Stores ((f s.db.stored).insertAudit rows) tag { guild with needsSave := false } ↔
      (if guild.needsSave then (s.db.stored.guilds.lookup tag).isSome = true else Stores s.db.stored tag guild) := by
  have hMem : tag ∈ s.guilds.keys := AList.mem_keys.mp (AList.lookup_isSome.mp (by rw [hGuild]; rfl))
  cases hNeeds : guild.needsSave with
  | true =>
      have hRow := h.rows s.db.stored tag guild hGuild hNeeds hMem
      rw [if_pos rfl]
      constructor
      · rintro ⟨row, hLookup, -⟩
        change (f s.db.stored).guilds.lookup tag = some row at hLookup
        rw [hRow] at hLookup
        exact Option.isSome_map.symm.trans (by rw [hLookup]; rfl)
      · intro hSome
        obtain ⟨row, hLookup⟩ := Option.isSome_iff_exists.mp hSome
        refine stores_row ?_ (rfl : guild.row = guild.row)
        show (f s.db.stored).guilds.lookup tag = _
        rw [hRow, hLookup]
        rfl
  | false =>
      rw [if_neg Bool.false_ne_true]
      refine stores_congr ?_ rfl rfl rfl
      refine h.clean s.db.stored tag fun hBoth => ?_
      have hDirty := hBoth.1
      unfold dirty at hDirty
      rw [hGuild, Option.any_some, hNeeds] at hDirty
      cases hDirty

/-- The guilds behind a save. -/
theorem GuildsSaved.lookup {f : Tables → Tables} {guilds : Table Tag Guild}
    (h : GuildsSaved s.guilds s.guilds.keys f guilds) (tag : Tag) :
    guilds.lookup tag = (s.guilds.lookup tag).map ({ · with needsSave := false }) := by
  rw [h.guilds tag]
  cases hGuild : s.guilds.lookup tag with
  | none => rfl
  | some guild =>
      have hMem : tag ∈ s.guilds.keys := AList.mem_keys.mp (AList.lookup_isSome.mp (by rw [hGuild]; rfl))
      simp [hMem]

theorem kept_of_saved (h : Saved s) (hNone : s.commandAuditUncommitted = []) : Kept s where
  rows tag guild hGuild := by
    obtain ⟨row, hRow, -⟩ := h.guilds tag guild hGuild
    rw [hRow]
    rfl
  clean tag guild hGuild _ := h.guilds tag guild hGuild
  audited := by
    rw [hNone, List.map_nil, List.append_nil]
    exact h.audited

/-- A save that was committed, with all commands, has stored what was kept. -/
theorem Passed.saved_iff {failures : Failures} {next : Server} (h : Passed s failures next)
    (hCommit : failures.commit = false)
    (hAudit : true ∉ (failures.statements.drop s.statements).take s.commandAuditUncommitted.length) :
    Saved next ↔ Kept s := by
  obtain ⟨f, rows, hSaved, hRows, ⟨-, hStored⟩ | ⟨hFailed, -⟩⟩ := h.result
  case inr => rw [hCommit] at hFailed; cases hFailed
  have hStoredAudit : next.db.stored.commandAudit =
      s.db.stored.commandAudit ++ s.commandAuditUncommitted.map (·.row) := by
    rw [hStored, ← hRows.all hAudit, ← hSaved.audit s.db.stored]
    rfl
  constructor
  · intro hNext
    have hGuilds : ∀ tag guild, s.guilds.lookup tag = some guild →
        if guild.needsSave then (s.db.stored.guilds.lookup tag).isSome = true else Stores s.db.stored tag guild := by
      intro tag guild hGuild
      have hLater := hNext.guilds tag { guild with needsSave := false } (by rw [hSaved.lookup, hGuild]; rfl)
      rw [hStored] at hLater
      exact (hSaved.stores_iff hGuild rows).mp hLater
    refine ⟨fun tag guild hGuild => ?_, fun tag guild hGuild hClean => ?_, ?_⟩
    · have hKnown := hGuilds tag guild hGuild
      split at hKnown
      · exact hKnown
      · obtain ⟨row, hRow, -⟩ := hKnown
        rw [hRow]
        rfl
    · have hKnown := hGuilds tag guild hGuild
      rwa [hClean, if_neg Bool.false_ne_true] at hKnown
    · rw [← hStoredAudit, hNext.audited, h.audited]
  · intro hKept
    refine ⟨fun tag guild hGuild => ?_, ?_⟩
    · rw [hSaved.lookup] at hGuild
      obtain ⟨old, hOld, rfl⟩ := Option.map_eq_some_iff.mp hGuild
      rw [hStored]
      refine (hSaved.stores_iff hOld rows).mpr ?_
      split
      · exact hKept.rows tag old hOld
      case isFalse hClean => exact hKept.clean tag old hOld (eq_false_of_ne_true hClean)
    · rw [hStoredAudit, hKept.audited, h.audited]

theorem succeeds_never (s : Server) : Succeeds s .never where
  begun := rfl
  statements := List.take_nil ▸ List.not_mem_nil
  commit := rfl

theorem Succeeds.saved_iff {failures : Failures} (h : Succeeds s failures) (hIdle : s.db.working = none) :
    Saved (s.timedSave failures) ↔ Kept s := by
  obtain ⟨hStatements, hAudit⟩ := not_or.mp (mt (mem_take_add _ _ _).mpr h.statements)
  obtain ⟨-, hBegin | hFails | ⟨hCommit, -⟩⟩ | hPassed := timedSave_outcome hIdle failures
  · rw [h.begun] at hBegin
    cases hBegin
  · exact absurd hFails hStatements
  · rw [h.commit] at hCommit
    cases hCommit
  · exact hPassed.saved_iff h.commit hAudit

theorem recovers_iff (hIdle : s.db.working = none) : Recovers s ↔ Kept s := by
  constructor
  · intro hRecovers
    exact ((succeeds_never s).saved_iff hIdle).mp (hRecovers .never (succeeds_never s))
  · intro hKept failures hSucceeds
    exact (hSucceeds.saved_iff hIdle).mpr hKept

end Recovery

section Losses

variable {s : Server} {failures : Failures}

/-- A save fails while commands wait to be stored, or its commit does while a guild is not
stored as it is. -/
def Loses (s : Server) (failures : Failures) : Prop :=
  (s.commandAuditUncommitted ≠ [] ∧ (failures.begin = true ∨
      true ∈ failures.statements.take (s.statements + s.commandAuditUncommitted.length) ∨ failures.commit = true)) ∨
    (failures.begin = false ∧ true ∉ failures.statements.take s.statements ∧ failures.commit = true ∧
      failures.rollback = false ∧ ∃ tag guild, s.guilds.lookup tag = some guild ∧ ¬Stores s.db.stored tag guild)

theorem Restarted.saved {next : Server} (h : Restarted s next) (hKept : Kept s)
    (hNone : s.commandAuditUncommitted = []) : Saved next where
  guilds tag guild hGuild := by
    rw [h.guilds] at hGuild
    cases hGuild
  audited := by
    have hAudited := hKept.audited
    rw [hNone, List.map_nil, List.append_nil] at hAudited
    rw [h.stored, hAudited, h.audited]

/-- A save that loses nothing leaves everything stored, also where it fails. -/
theorem timedSave_saved (hIdle : s.db.working = none) (hKept : Kept s) (hGood : ¬Loses s failures) :
    Saved (s.timedSave failures) ∧ (s.timedSave failures).commandAuditUncommitted = [] ∧
      (s.timedSave failures).db.working = none := by
  obtain ⟨hRestarted, hFails⟩ | hPassed := timedSave_outcome hIdle failures
  · refine ⟨hRestarted.saved hKept ?_, hRestarted.uncommitted, hRestarted.idle⟩
    by_contra hSome
    refine hGood (.inl ⟨hSome, ?_⟩)
    rcases hFails with hBegin | hStatements | ⟨hCommit, -⟩
    · exact .inl hBegin
    · exact .inr (.inl ((mem_take_add _ _ _).mpr (.inl hStatements)))
    · exact .inr (.inr hCommit)
  · refine ⟨?_, hPassed.uncommitted, hPassed.idle⟩
    cases hCommit : failures.commit with
    | false =>
        refine (hPassed.saved_iff hCommit fun hAudit => ?_).mpr hKept
        by_cases hNone : s.commandAuditUncommitted = []
        · rw [hNone] at hAudit
          cases hAudit
        · exact hGood (.inl ⟨hNone, .inr (.inl ((mem_take_add _ _ _).mpr (.inr hAudit)))⟩)
    | true =>
        obtain ⟨f, rows, hSaved, -, ⟨hStored, -⟩ | ⟨-, hRollback, hStored⟩⟩ := hPassed.result
        case inl => rw [hCommit] at hStored; cases hStored
        have hNone : s.commandAuditUncommitted = [] := by
          by_contra hSome
          exact hGood (.inl ⟨hSome, .inr (.inr hCommit)⟩)
        have hAudited := hKept.audited
        rw [hNone, List.map_nil, List.append_nil] at hAudited
        refine ⟨fun tag guild hGuild => ?_, by rw [hStored, hAudited, hPassed.audited]⟩
        rw [hSaved.lookup] at hGuild
        obtain ⟨old, hOld, rfl⟩ := Option.map_eq_some_iff.mp hGuild
        rw [hStored]
        by_contra hLost
        exact hGood (.inr ⟨hPassed.begun, hPassed.statements, hCommit, hRollback, tag, old, hOld, hLost⟩)

theorem not_kept_of_fewer {next : Server} (hKept : Kept s) (hNone : next.commandAuditUncommitted = [])
    (hAudited : next.audited = s.audited) (rows : List AuditRow)
    (hStored : next.db.stored.commandAudit = s.db.stored.commandAudit ++ rows)
    (hFewer : rows.length < s.commandAuditUncommitted.length) : ¬Kept next := by
  intro hNext
  have hBefore := congrArg List.length hKept.audited
  have hAfter := congrArg List.length hNext.audited
  rw [hNone, hStored, hAudited] at hAfter
  simp only [List.length_append, List.length_map, List.length_nil] at hBefore hAfter
  omega

theorem timedSave_loses (hIdle : s.db.working = none) (hKept : Kept s) (hBad : Loses s failures) :
    ¬Kept (s.timedSave failures) := by
  obtain ⟨hRestarted, hFails⟩ | hPassed := timedSave_outcome hIdle failures
  · obtain ⟨hSome, -⟩ | ⟨hBegin, hStatements, -, hRollback, -⟩ := hBad
    · refine not_kept_of_fewer hKept hRestarted.uncommitted hRestarted.audited [] ?_ ?_
      · rw [hRestarted.stored, List.append_nil]
      · exact List.length_pos_of_ne_nil hSome
    · rcases hFails with hBegin' | hStatements' | ⟨-, hRollback'⟩
      · rw [hBegin] at hBegin'
        cases hBegin'
      · exact absurd hStatements' hStatements
      · rw [hRollback] at hRollback'
        cases hRollback'
  · obtain ⟨f, rows, hSaved, hRows, hResult⟩ := hPassed.result
    obtain ⟨hSome, hFails⟩ | ⟨-, -, hCommit, -, tag, guild, hGuild, hLost⟩ := hBad
    · obtain ⟨hCommit, hStored⟩ | ⟨-, -, hStored⟩ := hResult
      · have hAudit : true ∈ (failures.statements.drop s.statements).take s.commandAuditUncommitted.length := by
          rcases hFails with hBegin | hStatements | hCommit'
          · rw [hPassed.begun] at hBegin
            cases hBegin
          · exact ((mem_take_add _ _ _).mp hStatements).resolve_left hPassed.statements
          · rw [hCommit] at hCommit'
            cases hCommit'
        refine not_kept_of_fewer hKept hPassed.uncommitted hPassed.audited rows ?_ (hRows.some hAudit)
        rw [hStored, ← hSaved.audit s.db.stored]
        rfl
      · refine not_kept_of_fewer hKept hPassed.uncommitted hPassed.audited [] ?_ ?_
        · rw [hStored, List.append_nil]
        · exact List.length_pos_of_ne_nil hSome
    · obtain ⟨hNoCommit, -⟩ | ⟨-, -, hStored⟩ := hResult
      · rw [hCommit] at hNoCommit
        cases hNoCommit
      · intro hNext
        have hClean := hNext.clean tag { guild with needsSave := false } (by rw [hSaved.lookup, hGuild]; rfl) rfl
        rw [hStored] at hClean
        exact hLost hClean

end Losses

section Steps

variable {cfg : Config} {s : Server} {tag : Tag}

/-- Nothing is in a transaction, and all is stored or still to be saved. -/
structure Ready (s : Server) : Prop extends Kept s where
  idle : s.db.working = none
  never : s.failures = .never

/-- Changes of a guild make it one that needs to be saved. -/
theorem modifyGuild_ready (h : Ready s) {f : Guild → Guild} (hf : ∀ guild, f guild = guild ∨ (f guild).needsSave = true) :
    Ready (s.modifyGuild tag f) where
  rows other guild hGuild := by
    change (s.guilds.modify tag f).lookup other = some guild at hGuild
    rw [Table.lookup_modify] at hGuild
    split at hGuild
    · obtain ⟨old, hOld, -⟩ := Option.map_eq_some_iff.mp hGuild
      exact h.rows other old hOld
    · exact h.rows other guild hGuild
  clean other guild hGuild hClean := by
    change (s.guilds.modify tag f).lookup other = some guild at hGuild
    rw [Table.lookup_modify] at hGuild
    split at hGuild
    · obtain ⟨old, hOld, rfl⟩ := Option.map_eq_some_iff.mp hGuild
      rcases hf old with hSame | hDirty
      · rw [hSame] at hClean ⊢
        exact h.clean other old hOld hClean
      · rw [hDirty] at hClean
        cases hClean
    · exact h.clean other guild hGuild hClean
  audited := h.audited
  idle := h.idle
  never := h.never

/-- A guild that is read gets another description than the stored one. -/
def Rewraps (cfg : Config) (s : Server) (tag : Tag) : Prop :=
  s.guilds.lookup tag = none ∧ ∃ row description, s.db.stored.guilds.lookup tag = some row ∧
    textWordWrap row.description cfg.guildMaxWidth = some description ∧ description ≠ row.description

theorem getGuild_ready (h : Ready s) (hGood : ¬Rewraps cfg s tag) : Ready (s.getGuild cfg tag) := by
  unfold Server.getGuild
  split
  case h_2 => exact h
  case h_1 row hNone hRow =>
    split
    · exact h
    case h_2 description hWrap =>
      have hSame : description = row.description := by
        by_contra hOther
        exact hGood ⟨hNone, row, description, hRow, hWrap, hOther⟩
      have hStores : Stores s.db.stored tag ⟨description, .unserialize row.ranks, row.bank, false⟩ :=
        ⟨row, hRow, hSame.symm, rfl, rfl⟩
      refine ⟨⟨fun other guild hGuild => ?_, fun other guild hGuild hClean => ?_, h.audited⟩, h.idle, h.never⟩
      · rw [Table.lookup_insert_eq] at hGuild
        split at hGuild
        case isTrue hTag =>
          rw [hTag, hRow]
          rfl
        case isFalse => exact h.rows other guild hGuild
      · rw [Table.lookup_insert_eq] at hGuild
        split at hGuild
        case isTrue hTag =>
          cases hGuild
          exact hTag ▸ hStores
        case isFalse => exact h.clean other guild hGuild hClean

theorem getGuild_rewraps (hBad : Rewraps cfg s tag) : ¬Kept (s.getGuild cfg tag) := by
  obtain ⟨hNone, row, description, hRow, hWrap, hOther⟩ := hBad
  intro hKept
  unfold Server.getGuild at hKept
  rw [hNone, hRow] at hKept
  dsimp only at hKept
  rw [hWrap] at hKept
  obtain ⟨row', hRow', hSame, -⟩ := hKept.clean tag _ (AList.lookup_insert _) rfl
  change s.db.stored.guilds.lookup tag = some row' at hRow'
  rw [hRow] at hRow'
  cases hRow'
  exact hOther hSame.symm

/-- The tables have another row, of a guild that is not in memory. -/
theorem insertRow_ready (h : Ready s) (hNew : s.db.stored.guilds.lookup tag = none) (row : GuildRow) :
    Ready { s with db := s.db.exec fun tables => { tables with guilds := tables.guilds.insert tag row } } := by
  have hStored := Connection.stored_exec_of_none
    (fun tables : Tables => { tables with guilds := tables.guilds.insert tag row }) h.idle
  have hOther : ∀ other guild, s.guilds.lookup other = some guild → other ≠ tag := by
    rintro other guild hGuild rfl
    have hRow := h.rows other guild hGuild
    rw [hNew] at hRow
    cases hRow
  have hLookup : ∀ other guild, s.guilds.lookup other = some guild →
      (s.db.stored.guilds.insert tag row).lookup other = s.db.stored.guilds.lookup other := by
    intro other guild hGuild
    rw [Table.lookup_insert_eq, if_neg (hOther other guild hGuild)]
  refine ⟨⟨fun other guild hGuild => ?_, fun other guild hGuild hClean => ?_, ?_⟩, ?_, h.never⟩
  · rw [hStored]
    dsimp only
    rw [hLookup other guild hGuild]
    exact h.rows other guild hGuild
  · rw [hStored]
    exact (stores_congr (hLookup other guild hGuild) rfl rfl rfl).mpr (h.clean other guild hGuild hClean)
  · rw [hStored]
    exact h.audited
  · exact Connection.working_exec_of_none _ h.idle

/-- A guild that is created is read at once. -/
def CreatesWrapped (cfg : Config) (s : Server) (tag : Tag) (description : Bytes) : Prop :=
  s.db.stored.guilds.lookup tag = none ∧ ∃ once twice, textWordWrap description cfg.guildMaxWidth = some once ∧
    textWordWrap once cfg.guildMaxWidth = some twice ∧ twice ≠ once

/-- The row of the new guild is the one that is read. -/
theorem rewraps_created (h : Ready s) {description once : Bytes} (hNew : s.db.stored.guilds.lookup tag = none)
    (hWrap : textWordWrap description cfg.guildMaxWidth = some once) (row : GuildRow) (hRow : row.description = once) :
    Rewraps cfg { s with db := s.db.exec fun tables => { tables with guilds := tables.guilds.insert tag row } } tag ↔
      CreatesWrapped cfg s tag description := by
  have hStored := Connection.stored_exec_of_none
    (fun tables : Tables => { tables with guilds := tables.guilds.insert tag row }) h.idle
  unfold Rewraps CreatesWrapped
  rw [hStored]
  dsimp only
  rw [AList.lookup_insert, hWrap]
  constructor
  · rintro ⟨-, row', twice, hRow', hTwice, hOther⟩
    cases hRow'
    rw [hRow] at hTwice hOther
    exact ⟨hNew, once, twice, rfl, hTwice, hOther⟩
  · rintro ⟨-, once', twice, hOnce, hTwice, hOther⟩
    cases hOnce
    have hNone : s.guilds.lookup tag = none := by
      refine Option.eq_none_iff_forall_ne_some.mpr fun guild hGuild => ?_
      have hKnown := h.rows tag guild hGuild
      rw [hNew] at hKnown
      cases hKnown
    exact ⟨hNone, row, twice, rfl, hRow ▸ hTwice, hRow ▸ hOther⟩

theorem createGuild_ready (h : Ready s) {description : Bytes} (hGood : ¬CreatesWrapped cfg s tag description) :
    Ready (s.createGuild cfg tag description) := by
  unfold Server.createGuild
  split
  case h_2 => exact h
  case h_1 once hWrap hNew =>
    refine getGuild_ready (insertRow_ready h hNew _) fun hBad => hGood ?_
    exact (rewraps_created h hNew hWrap _ rfl).mp hBad

theorem createGuild_wrapped (h : Ready s) {description : Bytes} (hBad : CreatesWrapped cfg s tag description) :
    ¬Kept (s.createGuild cfg tag description) := by
  obtain ⟨hNew, once, twice, hWrap, -⟩ := id hBad
  unfold Server.createGuild
  rw [hWrap, hNew]
  exact getGuild_rewraps ((rewraps_created h hNew hWrap _ rfl).mpr hBad)

/-- A guild is not in memory any more, and at most its own row has changed. -/
theorem forget_ready (h : Ready s) {f : Tables → Tables} (hAudit : ∀ tables, (f tables).commandAudit = tables.commandAudit)
    (hRows : ∀ tables other, other ≠ tag → (f tables).guilds.lookup other = tables.guilds.lookup other) :
    Ready { s with db := s.db.exec f, guilds := s.guilds.erase tag } := by
  have hStored := Connection.stored_exec_of_none f h.idle
  have hKnown : ∀ other guild, (s.guilds.erase tag).lookup other = some guild →
      s.guilds.lookup other = some guild ∧ (f s.db.stored).guilds.lookup other = s.db.stored.guilds.lookup other := by
    intro other guild hGuild
    rw [Table.lookup_erase_eq] at hGuild
    split at hGuild
    · cases hGuild
    case isFalse hOther => exact ⟨hGuild, hRows s.db.stored other hOther⟩
  refine ⟨⟨fun other guild hGuild => ?_, fun other guild hGuild hClean => ?_, ?_⟩, ?_, h.never⟩
  · obtain ⟨hOld, hRow⟩ := hKnown other guild hGuild
    rw [hStored, hRow]
    exact h.rows other guild hOld
  · obtain ⟨hOld, hRow⟩ := hKnown other guild hGuild
    rw [hStored]
    exact (stores_congr hRow rfl rfl rfl).mpr (h.clean other guild hOld hClean)
  · rw [hStored, hAudit]
    exact h.audited
  · exact Connection.working_exec_of_none f h.idle

theorem release_ready (h : Ready s) (tag : Tag) (empty : Bool) : Ready (s.release tag empty) := by
  unfold Server.release
  split
  · exact h
  case isFalse hSome =>
    split
    · refine forget_ready h (fun _ => rfl) fun tables other hOther => ?_
      exact (Table.lookup_erase_eq tables.guilds tag other).trans (if_neg hOther)
    · cases hDirty : dirty s.guilds tag with
      | false =>
          have hSame : Ready { s with db := s.db.exec id, guilds := s.guilds.erase tag } :=
            forget_ready h (fun _ => rfl) fun _ _ _ => rfl
          rw [Connection.exec_id] at hSame
          rw [final_of_ok (saveGuild_clean hDirty)]
          exact hSame
      | true =>
          obtain ⟨guild, hGuild, hNeeds⟩ := exists_of_dirty hDirty
          have hSaved := saveGuild_dirty hGuild hNeeds (by rw [h.never]; exact nofun)
          rw [final_of_ok hSaved, saveOne, skip_of_never h.never]
          dsimp only
          rw [Table.erase_modify]
          refine forget_ready h (fun _ => rfl) fun tables other hOther => ?_
          exact (Table.lookup_modify tables.guilds tag _ other).trans (if_neg hOther)

theorem restart_ready (h : s.db.stored.commandAudit = s.audited) : Ready s.restart where
  rows _ _ hGuild := by cases hGuild
  clean _ _ hGuild := by cases hGuild
  audited := (List.append_nil _).trans h
  idle := rfl
  never := rfl

theorem start_ready (tables : Tables) : Ready (start tables) := restart_ready (s := start tables) rfl

/-- The end of the process stores what waits, and the guilds with it. -/
theorem cleanup_ready (h : Ready s) : Ready s.cleanup := by
  obtain ⟨rows, s₁, hRows, hDb, hFailures, -, -, hAudited, hAudit⟩ := saveCommandAudit_ok s
  rw [skip_of_never h.never, h.never] at hFailures
  have hNever : ∀ n, true ∉ s₁.failures.statements.take n := by
    intro n
    rw [hFailures]
    exact List.take_nil ▸ List.not_mem_nil
  have hCharacters := saveCharacters_ok (hNever s.characters.length)
  rw [skip_of_never hFailures] at hCharacters
  obtain ⟨f, s₂, hSaved, hDb', -, -, hAudited', hAll⟩ := saveAll_ok (hNever _)
  have hSame : { s with failures := .never } = s := by
    rw [← h.never]
  have hFinal : s.cleanup = s₂.restart := by
    refine congrArg Server.restart (final_of_ok (a := ()) ?_)
    rw [hSame]
    exact (bind_of_ok hAudit).trans ((bind_of_ok hCharacters).trans hAll)
  have hRows : rows = s.commandAuditUncommitted.map (·.row) := hRows.all (by simp [h.never, Failures.never])
  have hStored : s₂.db.stored = f (s.db.stored.insertAudit rows) := by
    rw [hDb', hDb, Connection.exec_exec, Connection.stored_exec_of_none _ h.idle]
    rfl
  rw [hFinal]
  refine restart_ready ?_
  rw [hStored, hSaved.audit, hAudited', hAudited, ← h.audited, ← hRows]
  rfl

theorem timedSave_never (failures : Failures) : (s.timedSave failures).failures = .never := by
  unfold Server.timedSave
  cases TimedSaves.timedSave { s with failures } with
  | ok _ next => rfl
  | error fault next =>
      cases fault with
      | terminated => rfl
      | database => rfl

theorem timedSave_ready (h : Ready s) {failures : Failures} (hGood : ¬Loses s failures) :
    Ready (s.timedSave failures) := by
  obtain ⟨hSaved, hNone, hIdle⟩ := timedSave_saved h.idle h.toKept hGood
  exact ⟨kept_of_saved hSaved hNone, hIdle, timedSave_never failures⟩

theorem timedSave_idle (hIdle : s.db.working = none) (failures : Failures) :
    (s.timedSave failures).db.working = none := by
  obtain ⟨hRestarted, -⟩ | hPassed := timedSave_outcome hIdle failures
  · exact hRestarted.idle
  · exact hPassed.idle

theorem setDescription_dirty (cfg : Config) (guild : Guild) (description : Bytes) :
    (guild.setDescription cfg description).needsSave = true := rfl

theorem addBank_dirty (cfg : Config) (guild : Guild) (gold : Int) :
    guild.addBank cfg gold = guild ∨ (guild.addBank cfg gold).needsSave = true := by
  unfold Guild.addBank
  split
  · exact .inr rfl
  · exact .inl rfl

theorem delBank_dirty (guild : Guild) (gold : Int) :
    guild.delBank gold = guild ∨ (guild.delBank gold).needsSave = true := by
  unfold Guild.delBank
  split
  · exact .inr rfl
  · exact .inl rfl

theorem setRanks_dirty (cfg : Config) (guild : Guild) (names : Fin 9 → Bytes) :
    guild.setRanks cfg names = guild ∨ (guild.setRanks cfg names).needsSave = true := by
  unfold Guild.setRanks
  split
  · exact .inr rfl
  · exact .inl rfl

/-- The steps after which a save does not store everything. -/
def Upsets (cfg : Config) (s : Server) : Event → Prop
  | .timedSave failures => Loses s failures
  | .getGuild tag => Rewraps cfg s tag
  | .createGuild tag description => CreatesWrapped cfg s tag description
  | _ => False

/-- What a step leaves is stored or still to be saved, unless the step upsets it. -/
theorem step_ready (h : Ready s) {event : Event} {next : Server} (hGood : ¬Upsets cfg s event)
    (hStep : step cfg s event = some next) : Ready next := by
  cases event with
  | command entry =>
      obtain rfl := Option.some.inj hStep
      refine ⟨⟨h.rows, h.clean, ?_⟩, h.idle, h.never⟩
      show s.db.stored.commandAudit ++ (s.commandAuditUncommitted ++ [entry]).map (·.row) = s.audited ++ [entry.row]
      rw [List.map_append, ← List.append_assoc, h.audited]
      rfl
  | setDescription tag description =>
      obtain rfl := Option.some.inj hStep
      split
      · exact modifyGuild_ready h fun guild => .inr (setDescription_dirty cfg guild description)
      · exact h
  | setRanks tag names =>
      obtain rfl := Option.some.inj hStep
      exact modifyGuild_ready h fun guild => setRanks_dirty cfg guild names
  | addBank tag gold =>
      obtain rfl := Option.some.inj hStep
      exact modifyGuild_ready h fun guild => addBank_dirty cfg guild gold
  | delBank tag gold =>
      obtain rfl := Option.some.inj hStep
      exact modifyGuild_ready h fun guild => delBank_dirty guild gold
  | createGuild tag description =>
      obtain rfl := Option.some.inj hStep
      exact createGuild_ready h hGood
  | getGuild tag =>
      obtain rfl := Option.some.inj hStep
      exact getGuild_ready h hGood
  | release tag empty =>
      obtain rfl := Option.some.inj hStep
      exact release_ready h tag empty
  | enter c =>
      obtain rfl := Option.some.inj hStep
      exact ⟨⟨h.rows, h.clean, h.audited⟩, h.idle, h.never⟩
  | leave c =>
      obtain rfl := Option.some.inj hStep
      exact ⟨⟨h.rows, h.clean, h.audited⟩, h.idle, h.never⟩
  | timedSave failures =>
      obtain rfl := Option.some.inj hStep
      exact timedSave_ready h hGood
  | stop =>
      obtain rfl := Option.some.inj hStep
      exact cleanup_ready h

/-- A guild that is read changes nothing but the guilds. -/
theorem getGuild_db (cfg : Config) (s : Server) (tag : Tag) : (s.getGuild cfg tag).db = s.db := by
  unfold Server.getGuild
  split
  · split
    · rfl
    · rfl
  · rfl

theorem step_upsets (h : Ready s) {event : Event} {next : Server} (hBad : Upsets cfg s event)
    (hStep : step cfg s event = some next) : ¬Recovers next := by
  cases event with
  | timedSave failures =>
      obtain rfl := Option.some.inj hStep
      exact mt (recovers_iff (timedSave_idle h.idle failures)).mp (timedSave_loses h.idle h.toKept hBad)
  | getGuild tag =>
      obtain rfl := Option.some.inj hStep
      have hIdle : (s.getGuild cfg tag).db.working = none := by
        rw [getGuild_db, h.idle]
      exact mt (recovers_iff hIdle).mp (getGuild_rewraps hBad)
  | createGuild tag description =>
      obtain rfl := Option.some.inj hStep
      have hIdle : (s.createGuild cfg tag description).db.working = none := by
        unfold Server.createGuild
        split
        · rw [getGuild_db]
          exact Connection.working_exec_of_none _ h.idle
        · exact h.idle
      exact mt (recovers_iff hIdle).mp (createGuild_wrapped h hBad)
  | _ => exact absurd hBad id

end Steps

/-- The next save that is committed stores everything, exactly if no save before it has lost
something and no guild was read in another way than it is stored. -/
theorem saves_recover_iff (cfg : Config) (tables : Tables) (events : List Event) :
    Always (step cfg) Recovers (start tables) events ↔ Avoids (step cfg) (Upsets cfg) (start tables) events :=
  always_iff_avoids (fun _ hReady => (recovers_iff hReady.idle).mpr hReady.toKept)
    (fun _ _ _ hReady hGood hStep => step_ready hReady hGood hStep)
    (fun _ _ _ hReady hBad hStep => step_upsets hReady hBad hStep) (start_ready tables) events

/-- One guild, with a description and no gold. -/
def oneGuild : Tables := ⟨AList.singleton (.of [65, 66, 67]) ⟨[104, 105], [], 0⟩, []⟩

def wideConfig : Config := ⟨⟨0, 0, 10, 2, 1000, 0, 1, 1, 1, 1, 2, 0, true, 20, 100⟩, 180, 16, []⟩

/-- The guild is given gold, and the commit of the save that follows fails. -/
def failedCommit : List Event :=
  [.getGuild (.of [65, 66, 67]), .addBank (.of [65, 66, 67]) 5, .timedSave ⟨false, [], true, false⟩]

/-- The next save does not store the gold. -/
theorem gold_is_not_recovered : ¬Always (step wideConfig) Recovers (start oneGuild) failedCommit := by
  intro hAlways
  -- What the save behind the failed one makes of the guild and of its row.
  have hBank : (((run (step wideConfig) (start oneGuild) failedCommit).map (·.timedSave .never)).bind
      (·.guilds.lookup (.of [65, 66, 67]))).map (·.bank) = some 5 := by decide
  have hRow : (((run (step wideConfig) (start oneGuild) failedCommit).map (·.timedSave .never)).bind
      (·.db.stored.guilds.lookup (.of [65, 66, 67]))).map (·.bank) = some 0 := by decide
  cases hRun : run (step wideConfig) (start oneGuild) failedCommit with
  | none =>
      rw [hRun] at hBank
      cases hBank
  | some s =>
      rw [hRun] at hBank hRow
      obtain ⟨guild, hGuild, hGold⟩ := Option.map_eq_some_iff.mp hBank
      have hSaved := hAlways failedCommit s List.prefix_rfl hRun .never (succeeds_never s)
      obtain ⟨row, hLookup, -, -, hSame⟩ := hSaved.guilds _ guild hGuild
      rw [Option.map_some, Option.bind_some, hLookup, Option.map_some, hSame, hGold] at hRow
      cases hRow

end Etheos.TimedSaves
