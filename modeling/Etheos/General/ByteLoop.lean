import Mathlib.Logic.Basic
import Mathlib.Tactic.Common

/-! Loops over a byte that counts up to a bound. The bound is a number, and where it is 255 or more the byte
runs over and never gets past it. -/
namespace General

variable {σ : Type*}

/-- The loop with a number of turns. The body says whether the loop is left, or does not come to an end itself. -/
def byteLoop (bound : ℕ) (body : UInt8 → Option (Bool × σ)) : ℕ → UInt8 → σ → Option (Bool × UInt8 × σ)
  | 0, _, _ => none
  | turns + 1, b, s =>
      if b.toNat ≤ bound then
        match body b with
        | none => none
        | some (true, s) => some (true, b, s)
        | some (false, s) => byteLoop bound body turns (b + 1) s
      else some (false, b, s)

/-- The loop is left at this byte. -/
def Leaves (body : UInt8 → Option (Bool × σ)) (b : UInt8) : Prop := ∃ s, body b = some (true, s)

variable {bound turns : ℕ} {body : UInt8 → Option (Bool × σ)} {b c : UInt8} {s s' : σ} {result : Bool × UInt8 × σ}

theorem byteLoop_past (h : bound < b.toNat) : byteLoop bound body (turns + 1) b s = some (false, b, s) := by
  rw [byteLoop, if_neg (Nat.not_le.mpr h)]

theorem byteLoop_left (hBound : b.toNat ≤ bound) (h : body b = some (true, s')) :
    byteLoop bound body (turns + 1) b s = some (true, b, s') := by
  rw [byteLoop, if_pos hBound, h]

theorem byteLoop_next (hBound : b.toNat ≤ bound) (h : body b = some (false, s')) :
    byteLoop bound body (turns + 1) b s = byteLoop bound body turns (b + 1) s' := by
  rw [byteLoop, if_pos hBound, h]

theorem byteLoop_hangs (hBound : b.toNat ≤ bound) (h : body b = none) : byteLoop bound body turns b s = none := by
  cases turns with
  | zero => rfl
  | succ turns => rw [byteLoop, if_pos hBound, h]

/-- A loop that ends, turn by turn. -/
inductive LoopEnds (bound : ℕ) (body : UInt8 → Option (Bool × σ)) : UInt8 → σ → Bool × UInt8 × σ → Prop
  | past {b : UInt8} {s : σ} (hPast : bound < b.toNat) : LoopEnds bound body b s (false, b, s)
  | left {b : UInt8} {s s' : σ} (hBound : b.toNat ≤ bound) (h : body b = some (true, s')) :
      LoopEnds bound body b s (true, b, s')
  | next {b : UInt8} {s s' : σ} {result : Bool × UInt8 × σ} (hBound : b.toNat ≤ bound)
      (h : body b = some (false, s')) (rest : LoopEnds bound body (b + 1) s' result) : LoopEnds bound body b s result

theorem loopEnds_of_byteLoop (h : byteLoop bound body turns b s = some result) : LoopEnds bound body b s result := by
  induction turns generalizing b s with
  | zero => cases h
  | succ turns ih =>
      by_cases hBound : b.toNat ≤ bound
      · match hBody : body b with
        | none => cases (byteLoop_hangs hBound hBody).symm.trans h
        | some (true, s') =>
            cases (byteLoop_left hBound hBody).symm.trans h
            exact .left hBound hBody
        | some (false, s') => exact .next hBound hBody (ih ((byteLoop_next hBound hBody).symm.trans h))
      · cases (byteLoop_past (Nat.not_le.mp hBound)).symm.trans h
        exact .past (Nat.not_le.mp hBound)

theorem toNat_succ (h : b.toNat < 255) : (b + 1).toNat = b.toNat + 1 := by
  rw [UInt8.toNat_add]
  exact Nat.mod_eq_of_lt (Nat.succ_lt_succ h)

/-- A loop that is left has begun, and is left by its body. -/
theorem LoopEnds.found (h : LoopEnds bound body b s (true, c, s')) :
    b.toNat ≤ bound ∧ c.toNat ≤ bound ∧ body c = some (true, s') := by
  generalize hResult : (true, c, s') = result at h
  induction h with
  | past => cases hResult
  | left hBound hLeft =>
      cases hResult
      exact ⟨hBound, hBound, hLeft⟩
  | next hBound _ _ ih => exact ⟨hBound, (ih hResult).2⟩

/-- A loop that begins and ends has a body that ends at its first byte. -/
theorem LoopEnds.first (h : LoopEnds bound body b s result) (hBegins : b.toNat ≤ bound) :
    ∃ left after, body b = some (left, after) := by
  cases h with
  | past hPast => omega
  | left _ hLeft => exact ⟨_, _, hLeft⟩
  | next _ hNext _ => exact ⟨_, _, hNext⟩

/-- Below a bound that a byte can pass, no byte in front of the first one is met. -/
theorem LoopEnds.start_le (hSmall : bound < 255) (h : LoopEnds bound body b s result) : b.toNat ≤ result.2.1.toNat := by
  induction h with
  | past => exact Nat.le_refl _
  | left => exact Nat.le_refl _
  | next hBound _ _ ih =>
      rw [toNat_succ (by omega)] at ih
      omega

/-- A loop that comes to its end is past the bound, and its body has gone through all of the bytes. -/
theorem LoopEnds.unfound (h : LoopEnds bound body b s (false, c, s')) :
    bound < c.toNat ∧ ∀ d : UInt8, b.toNat ≤ d.toNat → d.toNat ≤ bound → ∃ after, body d = some (false, after) := by
  generalize hResult : (false, c, s') = result at h
  induction h with
  | past hPast =>
      cases hResult
      exact ⟨hPast, fun d hFrom hTo => by omega⟩
  | left => cases hResult
  | @next b _ _ _ hBound hNext _ ih =>
      obtain ⟨hPast, hRest⟩ := ih hResult
      refine ⟨hPast, fun d hFrom hTo => ?_⟩
      have hc := c.toNat_lt
      obtain hSame | hLess := Nat.eq_or_lt_of_le hFrom
      · obtain rfl := UInt8.toNat_inj.mp hSame
        exact ⟨_, hNext⟩
      · refine hRest d ?_ hTo
        rw [toNat_succ (by omega)]
        exact hLess

/-- A body that comes to an end leaves the loop or goes on with it. -/
theorem leaves_or_next (h : (body b).isSome) : Leaves body b ∨ ∃ after, body b = some (false, after) := by
  obtain ⟨⟨left, after⟩, hBody⟩ := Option.isSome_iff_exists.mp h
  cases left with
  | true => exact .inl ⟨after, hBody⟩
  | false => exact .inr ⟨after, hBody⟩

/-- Where the byte can pass the bound, the loop ends. -/
theorem byteLoop_ends (hSmall : bound < 255) (hBody : ∀ c, (body c).isSome)
    (hTurns : bound + 2 ≤ b.toNat + turns) (hSome : 0 < turns) :
    ∃ result, byteLoop bound body turns b s = some result := by
  induction turns generalizing b s with
  | zero => exact absurd hSome (Nat.lt_irrefl 0)
  | succ turns ih =>
      by_cases hBound : b.toNat ≤ bound
      · obtain ⟨s', hLeft⟩ | ⟨s', hNext⟩ := leaves_or_next (hBody b)
        · exact ⟨_, byteLoop_left hBound hLeft⟩
        · rw [byteLoop_next hBound hNext]
          apply ih
          · rw [toNat_succ (by omega)]
            omega
          · omega
      · exact ⟨_, byteLoop_past (Nat.not_le.mp hBound)⟩

/-- Where it cannot, every byte is met as long as the loop is not left. -/
theorem byteLoop_comes_round (hLarge : 255 ≤ bound) (hBody : ∀ c, (body c).isSome) {distance : ℕ}
    (hLeaves : Leaves body (b + UInt8.ofNat distance)) (hTurns : distance < turns) :
    ∃ c s', byteLoop bound body turns b s = some (true, c, s') := by
  induction turns generalizing b s distance with
  | zero => exact absurd hTurns (Nat.not_lt_zero distance)
  | succ turns ih =>
      have hBound : b.toNat ≤ bound := Nat.le_trans (Nat.le_of_lt_succ b.toNat_lt) hLarge
      obtain ⟨s', hLeft⟩ | ⟨s', hNext⟩ := leaves_or_next (hBody b)
      · exact ⟨b, s', byteLoop_left hBound hLeft⟩
      · rw [byteLoop_next hBound hNext]
        cases distance with
        | zero =>
            obtain ⟨left, hLeft⟩ := hLeaves
            rw [show b + UInt8.ofNat 0 = b from UInt8.add_zero b, hNext] at hLeft
            cases hLeft
        | succ distance =>
            refine ih ?_ (Nat.lt_of_succ_lt_succ hTurns)
            rw [UInt8.add_assoc, UInt8.add_comm 1]
            rwa [UInt8.ofNat_add] at hLeaves

/-- The loop is left exactly if there is a byte to leave it at. -/
theorem byteLoop_left_iff (hSmall : bound < 255) (hBody : ∀ c, (body c).isSome) :
    (∃ c s', byteLoop bound body 256 b s = some (true, c, s')) ↔
      ∃ c : UInt8, b.toNat ≤ c.toNat ∧ c.toNat ≤ bound ∧ Leaves body c := by
  constructor
  · rintro ⟨c, s', h⟩
    obtain ⟨-, hTo, hLeft⟩ := (loopEnds_of_byteLoop h).found
    exact ⟨c, (loopEnds_of_byteLoop h).start_le hSmall, hTo, s', hLeft⟩
  · rintro ⟨c, hFrom, hTo, after, hLeft⟩
    have hEnds : ∃ result, byteLoop bound body 256 b s = some result :=
      byteLoop_ends hSmall hBody (by omega) (by omega)
    obtain ⟨⟨left, d, s'⟩, h⟩ := hEnds
    cases left with
    | true => exact ⟨d, s', h⟩
    | false =>
        obtain ⟨after', hNext⟩ := (loopEnds_of_byteLoop h).unfound.2 c hFrom hTo
        cases hLeft.symm.trans hNext

theorem byteLoop_left_iff_of_large (hLarge : 255 ≤ bound) (hBody : ∀ c, (body c).isSome) :
    (∃ c s', byteLoop bound body 256 b s = some (true, c, s')) ↔ ∃ c, Leaves body c := by
  constructor
  · rintro ⟨c, s', h⟩
    exact ⟨c, s', (loopEnds_of_byteLoop h).found.2.2⟩
  · rintro ⟨c, hLeaves⟩
    have hThere : b + UInt8.ofNat (c - b).toNat = c := by
      rw [UInt8.ofNat_toNat, UInt8.add_comm, UInt8.sub_add_cancel]
    exact byteLoop_comes_round hLarge hBody (hThere.symm ▸ hLeaves) (c - b).toNat_lt

end General
