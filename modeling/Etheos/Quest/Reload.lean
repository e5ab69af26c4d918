import Etheos.General.Run
import Etheos.Quest.Saves

/-! `ReloadQuests`. The quests of all characters are recorded and read from their records, and
a record that is there already is kept. Files are those that there were before. -/
namespace Etheos.QuestStates

open Characters EOPlus General

section Book

variable (files : QuestFiles) (book : QuestBook)

/-- The inactive quests, and the others behind them. -/
def backUp : SortedMap Int QuestRecord :=
  SortedMap.insertAll (fun _ context => context.map QuestContext.record) book.quests.entries book.inactive

/-- Every record is tried, and none is taken away. -/
def restoreQuests (inactive : SortedMap Int QuestRecord) : SortedMap Int (Option QuestContext) :=
  SortedMap.insertAll (fun id record => (revive files (id, record)).map some) inactive.entries SortedMap.empty

def reloadBook : QuestBook := ⟨restoreQuests files (backUp book), backUp book⟩

end Book

section Find

variable {files : QuestFiles} {book : QuestBook} {id : Int}

theorem reloadBook_inactive : (reloadBook files book).inactive.find id =
    (book.inactive.find id).or ((book.quests.find id).bind fun context => context.map QuestContext.record) :=
  SortedMap.find_insertAll book.quests.sorted _ _

theorem reloadBook_quests : (reloadBook files book).quests.find id =
    ((reloadBook files book).inactive.find id).bind fun record => (revive files (id, record)).map some :=
  SortedMap.find_insertAll (backUp book).sorted _ _

end Find

/-- A state of a quest that is there, with counters that can be written. -/
structure QuestContext.Running (files : QuestFiles) (id : Int) (context : QuestContext) : Prop where
  progress : Writable context.progress
  accepted : files.Accepts id context.stateName

/-- What the quests of a character are like while the program runs. A record may hold any text. -/
def IsBook (files : QuestFiles) (book : QuestBook) : Prop :=
  ∀ id context, book.quests.find id = some (some context) → context.Running files id

/-- A quest under way is as its older record says, and without a record its counters can be
read back. -/
def UpToDate (book : QuestBook) : Prop :=
  ∀ id context, book.quests.find id = some (some context) →
    match book.inactive.find id with
    | none => context.Counts
    | some record => (lowercase (String.ofList record.questState)).toList = context.stateName ∧
        unserializeProgress SortedMap.empty record.questProgress = context.progress

/-- The quests under way are what they were, and so are the records without a file. -/
def KeepsQuests (files : QuestFiles) (before after : QuestBook) : Prop :=
  (∀ id context, before.quests.find id = some (some context) → after.quests.find id = some (some context)) ∧
  ∀ id record, before.inactive.find id = some record → files.quest id = none →
    after.inactive.find id = some record

section Reload

variable {files : QuestFiles} {book : QuestBook} {id : Int} {context : QuestContext} {record : QuestRecord}

theorem revive_eq_some (h : revive files (id, record) = some context) :
    (lowercase (String.ofList record.questState)).toList = context.stateName ∧
      unserializeProgress SortedMap.empty record.questProgress = context.progress ∧
        files.Accepts id context.stateName := by
  obtain ⟨quest, hQuest, hResumed⟩ := Option.bind_eq_some_iff.mp h
  unfold resume at hResumed
  dsimp only at hResumed
  split at hResumed
  case isTrue hState =>
    cases hResumed
    refine ⟨rfl, rfl, quest, hQuest, ?_⟩
    rw [String.ofList_toList]
    exact hState
  case isFalse => cases hResumed

theorem revive_of_upToDate (hAccepts : files.Accepts id context.stateName)
    (hName : (lowercase (String.ofList record.questState)).toList = context.stateName)
    (hProgress : unserializeProgress SortedMap.empty record.questProgress = context.progress) :
    revive files (id, record) = some context := by
  obtain ⟨quest, hQuest, hState⟩ := hAccepts
  rw [← hName, String.ofList_toList] at hState
  rw [revive, hQuest, Option.bind_some, resume]
  dsimp only
  rw [if_pos hState, hName, hProgress]

/-- What is read from any record is a state of a quest that is there. -/
theorem reloadBook_isBook : IsBook files (reloadBook files book) := by
  intro id context hFound
  rw [reloadBook_quests] at hFound
  obtain ⟨record, -, hSome⟩ := Option.bind_eq_some_iff.mp hFound
  obtain ⟨context', hRevived, hSame⟩ := Option.map_eq_some_iff.mp hSome
  cases hSame
  obtain ⟨-, hProgress, hAccepts⟩ := revive_eq_some hRevived
  exact ⟨hProgress ▸ unserializeProgress_writable _, hAccepts⟩

/-- Right after a reload every quest is as its record says. -/
theorem reloadBook_upToDate : UpToDate (reloadBook files book) := by
  intro id context hFound
  rw [reloadBook_quests] at hFound
  obtain ⟨record, hRecord, hSome⟩ := Option.bind_eq_some_iff.mp hFound
  obtain ⟨context', hRevived, hSame⟩ := Option.map_eq_some_iff.mp hSome
  cases hSame
  obtain ⟨hName, hProgress, -⟩ := revive_eq_some hRevived
  rw [hRecord]
  exact ⟨hName, hProgress⟩

theorem reloadBook_keeps_iff (h : IsBook files book) :
    KeepsQuests files book (reloadBook files book) ↔ UpToDate book := by
  have hRecords : ∀ id record, book.inactive.find id = some record → files.quest id = none →
      (reloadBook files book).inactive.find id = some record := by
    intro id record hRecord _
    rw [reloadBook_inactive, hRecord, Option.some_or]
  refine (and_iff_left hRecords).trans (forall₂_congr fun id context => forall_congr' fun hFound => ?_)
  have hContext := h id context hFound
  rw [reloadBook_quests, reloadBook_inactive, hFound]
  cases hRecord : book.inactive.find id with
  | none =>
      rw [Option.none_or, Option.bind_some, Option.map_some, Option.bind_some,
        revive_of_accepts hContext.progress hContext.accepted, Option.map_some, Option.some_inj,
        Option.some_inj]
      exact reread_counts hContext.progress
  | some record =>
      rw [Option.some_or, Option.bind_some, Option.map_eq_some_iff]
      simp only [Option.some_inj, exists_eq_right]
      constructor
      · intro hRevived
        obtain ⟨hName, hProgress, -⟩ := revive_eq_some hRevived
        exact ⟨hName, hProgress⟩
      · rintro ⟨hName, hProgress⟩
        exact revive_of_upToDate hContext.accepted hName hProgress

end Reload

/-- The quests of all characters that are online. -/
structure QuestWorld (files : QuestFiles) (ι : Type) where
  books : ι → QuestBook
  isBook : ∀ c, IsBook files (books c)

/-- What players do is done to one quest at a time: it is started or goes on in some state of
its file with some counters, or it is reset. -/
inductive QuestEvent (files : QuestFiles) (ι : Type) where
  | reload
  | progress (c : ι) (id : Int) (context : QuestContext) (h : context.Running files id)
  | reset (c : ι) (id : Int)

namespace QuestWorld

variable {files : QuestFiles} {ι : Type}

/-- `ReloadQuests`, up to the check of the rules. -/
def reload (s : QuestWorld files ι) : QuestWorld files ι where
  books c := reloadBook files (s.books c)
  isBook _ := reloadBook_isBook

section Step

variable [DecidableEq ι]

/-- `quests[id] = context` for one character. -/
def assign (s : QuestWorld files ι) (c : ι) (id : Int) (context : Option QuestContext)
    (h : ∀ context' ∈ context, context'.Running files id) : QuestWorld files ι where
  books := Function.update s.books c { s.books c with quests := (s.books c).quests.put id context }
  isBook := by
    intro c'
    by_cases hSame : c' = c
    · subst hSame
      rw [Function.update_self]
      intro id' context' hFound
      rw [SortedMap.find_put] at hFound
      split at hFound
      case isTrue hId =>
        cases hFound
        exact hId ▸ h context' rfl
      case isFalse => exact s.isBook c' id' context' hFound
    · rw [Function.update_of_ne hSame]
      exact s.isBook c'

def step (s : QuestWorld files ι) : QuestEvent files ι → Option (QuestWorld files ι)
  | .reload => some s.reload
  | .progress c id context h =>
      some (s.assign c id (some context) fun _ hContext => Option.some.inj hContext ▸ h)
  | .reset c id => some (s.assign c id none nofun)

end Step

/-- A reload that changes a quest of a character, or a record that it should leave alone. -/
def Loses (s : QuestWorld files ι) : QuestEvent files ι → Prop
  | .reload => ∃ c, ¬KeepsQuests files (s.books c) (s.reload.books c)
  | .progress .. => False
  | .reset .. => False

/-- A reload while the record of some quest is older than the quest. -/
def Outdated (s : QuestWorld files ι) : QuestEvent files ι → Prop
  | .reload => ∃ c, ¬UpToDate (s.books c)
  | .progress .. => False
  | .reset .. => False

theorem loses_iff (s : QuestWorld files ι) (event : QuestEvent files ι) : s.Loses event ↔ s.Outdated event := by
  cases event with
  | reload => exact exists_congr fun c => (reloadBook_keeps_iff (s.isBook c)).not
  | progress => exact Iff.rfl
  | reset => exact Iff.rfl

/-- In a run no reload loses anything exactly if none comes when a record is outdated. -/
theorem avoids_loses_iff [DecidableEq ι] (s : QuestWorld files ι) (events : List (QuestEvent files ι)) :
    General.Avoids step Loses s events ↔ General.Avoids step Outdated s events := by
  refine forall₂_congr fun done event => forall₂_congr fun s' _ => forall₂_congr fun _ _ => ?_
  exact (s'.loses_iff event).not

/-- Of many reloads in a row only the first may lose something. -/
theorem avoids_loses_reloads [DecidableEq ι] (s : QuestWorld files ι) (n : Nat) :
    General.Avoids step Loses s.reload (List.replicate n .reload) := by
  induction n generalizing s with
  | zero => exact General.avoids_nil
  | succ n ih =>
      refine (General.avoids_cons rfl _).mpr ⟨?_, ih s.reload⟩
      rw [loses_iff]
      rintro ⟨c, hOutdated⟩
      exact hOutdated reloadBook_upToDate

/-- A quest just started, and later after a kill. -/
def fresh : QuestContext := ⟨"begin".toList, SortedMap.empty⟩

def killed : QuestContext := ⟨"begin".toList, SortedMap.empty.put (Counter.killedNPCs 5).key 1⟩

theorem fresh_running : fresh.Running diceFiles 1 := ⟨⟨nofun, nofun⟩, _, rfl, by decide⟩

theorem killed_running : killed.Running diceFiles 1 := by
  refine ⟨IsProgress.writable ⟨fun e he => ?_, fun e he => ?_⟩, _, rfl, by decide⟩
  · obtain rfl := List.mem_singleton.mp he
    exact ⟨.killedNPCs 5, rfl⟩
  · obtain rfl := List.mem_singleton.mp he
    rfl

def nobody : QuestWorld diceFiles Unit := ⟨fun _ => ⟨SortedMap.empty, SortedMap.empty⟩, fun _ => nofun⟩

/-- The second reload takes the record of the first one, and the kill is lost. -/
theorem not_avoids_loses_killed :
    ¬General.Avoids step Loses nobody
      [.progress () 1 fresh fresh_running, .reload, .progress () 1 killed killed_running, .reload] := by
  intro h
  refine h [.progress () 1 fresh fresh_running, .reload, .progress () 1 killed killed_running] .reload _
    (List.prefix_refl _) rfl rfl ⟨(), fun hKeeps => ?_⟩
  have hAfter := hKeeps.1 1 killed rfl
  revert hAfter
  decide

end QuestWorld

end Etheos.QuestStates
