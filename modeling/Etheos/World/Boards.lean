import Etheos.Character.World
import Etheos.Config.Config
import Etheos.General.Run
import Etheos.Util.TextCap

/-! The message boards. Posts come onto them from the characters that read one, and from reports and
requests to the admins, and each way has its own look at which board is that of the admins. -/
namespace Etheos.Boards

open Characters (toShort)
open ConfigFiles (bytes)
open General Texts

structure Settings where
  adminBoard : Int
  adminBoardLimit : Int
  boardMaxPosts : Int
  boardMaxUserPosts : Int
  boardMaxUserRecentPosts : Int
  boardRecentPostTime : Int
  boardMaxSubjectLength : Int
  boardMaxPostLength : Int
  chatMaxWidth : Int
  reportChatLogSize : Int
  boardmod : Int

/-- A `Board_Post`. -/
structure Post where
  id : Int
  author : Bytes
  authorAdmin : Int
  subject : Bytes
  body : Bytes
  time : ℚ
  deriving DecidableEq

/-- Who writes. -/
structure Author where
  name : Bytes
  admin : Int
  access : Int

/-- `made` are all posts that there have been, the newest one first. The program has no such list. -/
structure Board where
  lastId : Int
  posts : List Post
  made : List Post

/-- The ids of the boards are their places. -/
abbrev State := Fin 8 → Board

def start : State := fun _ => ⟨0, [], []⟩

/-- The board is that which the character has open. -/
inductive Event where
  | create (author : Author) (board : Fin 8) (subject body : Bytes) (now : ℚ)
  | remove (author : Author) (board : Fin 8) (postid : Int)
  | report (author : Author) (reportee message chatLogDump : Bytes) (now : ℚ)
  | request (author : Author) (message : Bytes) (now : ℚ)

def ucfirst : Bytes → Bytes
  | [] => []
  | c :: rest => (if 97 ≤ c ∧ c ≤ 122 then c - 32 else c) :: rest

/-- `substr` from the start, which takes all for a negative length. -/
def cut (text : Bytes) (length : Int) : Bytes := if length < 0 then text else text.take length.toNat

/-- The loop of `Board_Create` over the posts that there are. -/
def mayPost (cfg : Settings) (name : Bytes) (now : ℚ) : List Post → Int → Int → Bool
  | [], _, _ => true
  | post :: rest, count, recent =>
      if post.author ≠ name then mayPost cfg name now rest count recent
      else if cfg.boardMaxUserPosts ≤ count + 1 then false
      else if now < post.time + cfg.boardRecentPostTime then
        if cfg.boardMaxUserRecentPosts ≤ recent + 1 then false
        else mayPost cfg name now rest (count + 1) (recent + 1)
      else mayPost cfg name now rest (count + 1) recent

/-- The limit is a `std::size_t`. -/
def limited (limit : Int) (posts : List Post) : List Post :=
  if limit % 2 ^ 64 < posts.length then posts.dropLast else posts

/-- The new post has the next id. -/
def Board.push (board : Board) (limit : Int) (post : Int → Post) : Board where
  lastId := toShort (board.lastId + 1)
  posts := limited limit (post (toShort (board.lastId + 1)) :: board.posts)
  made := post (toShort (board.lastId + 1)) :: board.made

def Board.removePost (board : Board) (author : Author) (postid : Int) : Board :=
  match board.posts.find? (·.id = postid) with
  | none => board
  | some post =>
      if post.authorAdmin < author.admin ∨ post.author = author.name then
        { board with posts := board.posts.eraseP (·.id = postid) }
      else board

/-- The board of the reports and requests. -/
def adminBoard (cfg : Settings) : Option (Fin 8) :=
  let boardid := toShort (cfg.adminBoard - 1)
  if h : 0 ≤ boardid ∧ boardid < 8 then some ⟨boardid.toNat, by omega⟩ else none

/-- The limit that `Board_Create` takes. -/
def createLimit (cfg : Settings) (board : Fin 8) : Int :=
  if (board.val : Int) = cfg.adminBoard then cfg.adminBoardLimit else cfg.boardMaxPosts

def newPost (cfg : Settings) (author : Author) (subject body : Bytes) (now : ℚ) (id : Int) : Post where
  id := id
  author := author.name
  authorAdmin := author.admin
  subject := cut (subject.map fun c => if c = 255 then 121 else c) cfg.boardMaxSubjectLength
  body := cut body cfg.boardMaxPostLength
  time := now

def ellipsis : Bytes := bytes "...".toList

def reportPost (cfg : Settings) (author : Author) (reportee message chatLogDump : Bytes) (now : ℚ) (id : Int) : Post :=
  let name := ucfirst author.name
  let message := textCap message
    (cfg.chatMaxWidth - textWidth (name ++ bytes "  reports: ".toList ++ reportee ++ bytes ", ".toList)) ellipsis
  { id := id
    author := author.name
    authorAdmin := author.admin
    subject := bytes " [Report] ".toList ++ name ++ bytes " reports: ".toList ++ reportee
    body := if 0 < cfg.reportChatLogSize then message ++ [13, 10, 13, 10] ++ chatLogDump else message
    time := now }

def requestPost (cfg : Settings) (author : Author) (message : Bytes) (now : ℚ) (id : Int) : Post :=
  let name := ucfirst author.name
  { id := id
    author := author.name
    authorAdmin := author.admin
    subject := bytes " [Request] ".toList ++ name ++ bytes " needs help".toList
    body := textCap message (cfg.chatMaxWidth - textWidth (name ++ bytes "  needs help: ".toList)) ellipsis
    time := now }

/-- The board that a post of the event goes to, with the limit that is looked at, and the post. -/
def posted (cfg : Settings) (s : State) : Event → Option (Fin 8 × Int × (Int → Post))
  | .create author board subject body now =>
      if mayPost cfg author.name now (s board).posts 0 0 then
        some (board, createLimit cfg board, newPost cfg author subject body now)
      else none
  | .remove .. => none
  | .report author reportee message chatLogDump now =>
      (adminBoard cfg).map fun board =>
        (board, cfg.adminBoardLimit, reportPost cfg author reportee message chatLogDump now)
  | .request author message now =>
      (adminBoard cfg).map fun board => (board, cfg.adminBoardLimit, requestPost cfg author message now)

def step (cfg : Settings) (s : State) (event : Event) : Option State :=
  match event with
  | .remove author board postid =>
      if author.access < cfg.boardmod then some s
      else some (Function.update s board ((s board).removePost author postid))
  | _ =>
      match posted cfg s event with
      | none => some s
      | some (board, limit, post) => some (Function.update s board ((s board).push limit post))

/-- The limit that a board is meant to have. -/
def limit (cfg : Settings) (board : Fin 8) : Int :=
  if adminBoard cfg = some board then cfg.adminBoardLimit else cfg.boardMaxPosts

structure Kept (limit : Int) (board : Board) : Prop where
  few : board.posts.length ≤ limit
  newestFirst : board.posts.Sublist board.made
  distinct : (board.posts.map (·.id)).Nodup

def AllKept (cfg : Settings) (s : State) : Prop := ∀ board, Kept (limit cfg board) (s board)

/-- The board is full, and the limit that is looked at is another one, under which a post more fits in. -/
def Overfull (cfg : Settings) (board : Fin 8) (used : Int) (b : Board) : Prop :=
  limit cfg board ≤ b.posts.length ∧ b.posts.length < used % 2 ^ 64

/-- The next id is that of a post which stays. -/
def Clash (used : Int) (b : Board) : Prop :=
  toShort (b.lastId + 1) ∈ (if used % 2 ^ 64 ≤ b.posts.length then b.posts.dropLast else b.posts).map (·.id)

/-- A post that must not be made so. -/
def Bad (cfg : Settings) (s : State) (event : Event) : Prop :=
  ∃ entry ∈ posted cfg s event, Overfull cfg entry.1 entry.2.1 (s entry.1) ∨ Clash entry.2.1 (s entry.1)

section Push

variable {b : Board} {most used : Int} {post : Int → Post}

/-- The posts that stay when one is made. -/
def stay (used : Int) (b : Board) : List Post := if used % 2 ^ 64 ≤ b.posts.length then b.posts.dropLast else b.posts

theorem stay_sublist (used : Int) (b : Board) : (stay used b).Sublist b.posts := by
  unfold stay
  split
  · exact List.dropLast_sublist b.posts
  · exact List.Sublist.refl b.posts

theorem push_of_full (post : Int → Post) (hFull : used % 2 ^ 64 ≤ b.posts.length) :
    (b.push used post).posts = (post (toShort (b.lastId + 1)) :: b.posts).dropLast := by
  have hOver : used % 2 ^ 64 < ((post (toShort (b.lastId + 1)) :: b.posts).length : Int) := by
    rw [List.length_cons]
    omega
  rw [Board.push, limited, if_pos hOver]

theorem push_of_room (post : Int → Post) (hRoom : ¬used % 2 ^ 64 ≤ b.posts.length) :
    (b.push used post).posts = post (toShort (b.lastId + 1)) :: b.posts := by
  have hFits : ¬used % 2 ^ 64 < ((post (toShort (b.lastId + 1)) :: b.posts).length : Int) := by
    rw [List.length_cons]
    omega
  rw [Board.push, limited, if_neg hFits]

theorem push_sublist (b : Board) (used : Int) (post : Int → Post) :
    (b.push used post).posts.Sublist (post (toShort (b.lastId + 1)) :: stay used b) := by
  by_cases hFull : used % 2 ^ 64 ≤ b.posts.length
  · rw [push_of_full post hFull, stay, if_pos hFull]
    cases hPosts : b.posts with
    | nil => simp
    | cons first rest => rw [List.dropLast_cons_cons]
  · rw [push_of_room post hFull, stay, if_neg hFull]

theorem kept_push (hPost : ∀ id, (post id).id = id) (h : Kept most b)
    (hRoom : ¬(most ≤ b.posts.length ∧ b.posts.length < used % 2 ^ 64)) (hNew : ¬Clash used b) :
    Kept most (b.push used post) := by
  have hPosts := push_sublist b used post
  have hStay := stay_sublist used b
  constructor
  · have hFew := h.few
    by_cases hFull : used % 2 ^ 64 ≤ b.posts.length
    · simp [push_of_full post hFull, hFew]
    · rw [push_of_room post hFull, List.length_cons]
      omega
  · exact (hPosts.trans (hStay.cons_cons _)).trans (h.newestFirst.cons_cons _)
  · apply List.Nodup.sublist (hPosts.map _)
    rw [List.map_cons, hPost]
    exact List.nodup_cons.mpr ⟨hNew, h.distinct.sublist (hStay.map _)⟩

/-- A post too many, or one whose id is there already. -/
theorem not_kept_push (hPost : ∀ id, (post id).id = id)
    (hBad : (most ≤ b.posts.length ∧ b.posts.length < used % 2 ^ 64) ∨ Clash used b) :
    ¬Kept most (b.push used post) := by
  intro hNext
  rcases hBad with ⟨hFull, hUsed⟩ | hClash
  · have hFew := hNext.few
    rw [push_of_room post (by omega), List.length_cons] at hFew
    omega
  · have hDistinct := hNext.distinct
    have hTwice : ¬((post (toShort (b.lastId + 1)) :: stay used b).map (·.id)).Nodup := by
      rw [List.map_cons, hPost]
      exact fun hNodup => (List.nodup_cons.mp hNodup).1 hClash
    apply hTwice
    unfold Clash at hClash
    by_cases hFull : used % 2 ^ 64 ≤ b.posts.length
    · rw [push_of_full post hFull] at hDistinct
      rw [stay, if_pos hFull]
      cases hPosts : b.posts with
      | nil => simp [hPosts] at hClash
      | cons first rest =>
          rw [hPosts, List.dropLast_cons_cons] at hDistinct
          exact hDistinct
    · rw [push_of_room post hFull] at hDistinct
      rw [stay, if_neg hFull]
      exact hDistinct

theorem kept_removePost (h : Kept most b) (author : Author) (postid : Int) : Kept most (b.removePost author postid) := by
  unfold Board.removePost
  split
  · exact h
  · split
    · have hLess : (b.posts.eraseP (·.id = postid)).Sublist b.posts := List.eraseP_sublist
      constructor
      · have hFew := h.few
        have hLength := hLess.length_le
        dsimp only
        omega
      · exact hLess.trans h.newestFirst
      · exact h.distinct.sublist (hLess.map _)
    · exact h

end Push

section Steps

variable {cfg : Settings} {s next : State} {event : Event}

theorem posted_id {entry : Fin 8 × Int × (Int → Post)} (h : entry ∈ posted cfg s event) (id : Int) :
    (entry.2.2 id).id = id := by
  cases event with
  | create author board subject body now =>
      simp only [posted, Option.mem_def, Option.ite_none_right_eq_some, Option.some.injEq] at h
      rw [← h.2]
      rfl
  | remove author board postid => cases h
  | report author reportee message chatLogDump now =>
      obtain ⟨board, -, rfl⟩ := Option.map_eq_some_iff.mp h
      rfl
  | request author message now =>
      obtain ⟨board, -, rfl⟩ := Option.map_eq_some_iff.mp h
      rfl

theorem step_posted {entry : Fin 8 × Int × (Int → Post)} (h : entry ∈ posted cfg s event) :
    step cfg s event = some (Function.update s entry.1 ((s entry.1).push entry.2.1 entry.2.2)) := by
  cases event with
  | remove author board postid => cases h
  | create author board subject body now => rw [step, Option.mem_def.mp h]; simp
  | report author reportee message chatLogDump now => rw [step, Option.mem_def.mp h]; simp
  | request author message now => rw [step, Option.mem_def.mp h]; simp

/-- All that a step does. -/
theorem step_cases (h : step cfg s event = some next) :
    next = s ∨ (∃ author board postid, next = Function.update s board ((s board).removePost author postid)) ∨
      ∃ entry ∈ posted cfg s event, next = Function.update s entry.1 ((s entry.1).push entry.2.1 entry.2.2) := by
  cases hPosted : posted cfg s event with
  | some entry =>
      have hStep := step_posted (Option.mem_def.mpr hPosted)
      rw [hStep] at h
      exact .inr (.inr ⟨entry, rfl, (Option.some.inj h).symm⟩)
  | none =>
      cases event with
      | remove author board postid =>
          rw [step] at h
          split at h
          · exact .inl (Option.some.inj h).symm
          · exact .inr (.inl ⟨author, board, postid, (Option.some.inj h).symm⟩)
      | _ =>
          simp only [step, hPosted, Option.some.injEq] at h
          exact .inl h.symm

theorem allKept_update (h : AllKept cfg s) {board : Fin 8} {b : Board} (hBoard : Kept (limit cfg board) b) :
    AllKept cfg (Function.update s board b) := by
  intro other
  by_cases hSame : other = board
  · subst hSame
    rw [Function.update_self]
    exact hBoard
  · rw [Function.update_of_ne hSame]
    exact h other

theorem step_kept (h : AllKept cfg s) (hGood : ¬Bad cfg s event) (hStep : step cfg s event = some next) :
    AllKept cfg next := by
  rcases step_cases hStep with rfl | ⟨author, board, postid, rfl⟩ | ⟨entry, hEntry, rfl⟩
  · exact h
  · exact allKept_update h (kept_removePost (h board) author postid)
  · apply allKept_update h
    apply kept_push (posted_id hEntry) (h entry.1)
    · exact fun hOver => hGood ⟨entry, hEntry, .inl hOver⟩
    · exact fun hClash => hGood ⟨entry, hEntry, .inr hClash⟩

theorem step_not_kept (hBad : Bad cfg s event) (hStep : step cfg s event = some next) :
    ¬AllKept cfg next := by
  obtain ⟨entry, hEntry, hWrong⟩ := hBad
  rw [step_posted hEntry] at hStep
  obtain rfl := Option.some.inj hStep
  intro hNext
  have hBoard := hNext entry.1
  rw [Function.update_self] at hBoard
  exact not_kept_push (posted_id hEntry) hWrong hBoard

/-- The boards are kept in all states of a run exactly if the limits are not negative, and no post is made
on a full board under a larger limit or with an id that is there. -/
theorem boards_kept_iff (cfg : Settings) (events : List Event) :
    Always (step cfg) (AllKept cfg) start events ↔
      (∀ board, 0 ≤ limit cfg board) ∧ Avoids (step cfg) (Bad cfg) start events := by
  have hRun (hLimits : ∀ board, 0 ≤ limit cfg board) :
      Always (step cfg) (AllKept cfg) start events ↔ Avoids (step cfg) (Bad cfg) start events := by
    have hStart : AllKept cfg start := fun board => ⟨hLimits board, List.Sublist.slnil, List.nodup_nil⟩
    exact always_iff_avoids (fun _ h => h) (fun _ _ _ => step_kept) (fun _ _ _ _ => step_not_kept) hStart events
  constructor
  · intro h
    have hLimits : ∀ board, 0 ≤ limit cfg board := fun board => (h [] start List.nil_prefix rfl board).few
    exact ⟨hLimits, (hRun hLimits).mp h⟩
  · intro ⟨hLimits, hAvoids⟩
    exact (hRun hLimits).mpr hAvoids

/-- The first board is that of the admins. -/
def firstBoard : Settings where
  adminBoard := 1
  adminBoardLimit := 2
  boardMaxPosts := 1
  boardMaxUserPosts := 6
  boardMaxUserRecentPosts := 2
  boardRecentPostTime := 1800
  boardMaxSubjectLength := 32
  boardMaxPostLength := 2048
  chatMaxWidth := 1400
  reportChatLogSize := 0
  boardmod := 1

/-- Two posts on the second board, of which it is to have one. -/
theorem firstBoard_counterexample :
    ¬∀ (cfg : Settings) (events : List Event), Always (step cfg) (AllKept cfg) start events := by
  intro h
  let post : Event := .create ⟨[97], 0, 0⟩ 1 [98] [99] 0
  have hLength : (run (step firstBoard) start [post, post]).map (fun s => (s 1).posts.length) = some 2 := by
    decide +kernel
  obtain ⟨s, hRun, hTwo⟩ := Option.map_eq_some_iff.mp hLength
  have hFew := (h firstBoard [post, post] [post, post] s List.prefix_rfl hRun 1).few
  have hLimit : limit firstBoard 1 = 1 := by decide
  rw [hTwo, hLimit] at hFew
  omega

end Steps

end Etheos.Boards
