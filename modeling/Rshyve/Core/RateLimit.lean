/-
# The token bucket

`vmm-core/src/ratelimit.rs`: a cap on events that a guest or a peer can
repeat at will. Time is in nanoseconds. A caller reads the clock before it
takes the lock, so the times of the calls need not be in the order of the
calls.

# The potential

What a bucket can still admit up to time `T` is its tokens and the periods
between `refilled` and `T`. A refill moves periods to tokens and may lose
tokens to the cap. It never makes any, as long as the call is not later than
`T` (`reserve_refill`).
-/
import Mathlib

namespace Rshyve.Core

/-- `burst` is a `u32`. -/
structure TokenBucket where
  burst : Nat
  period : Nat
  burst_le : burst ≤ 2 ^ 32 - 1

namespace TokenBucket

structure State where
  tokens : Nat
  refilled : Nat
  deriving DecidableEq, Repr

/-- The bucket as it is created. -/
def new (b : TokenBucket) (now : Nat) : State := ⟨b.burst, now⟩

/-- The first half of `take_at`. The product is no longer than the elapsed
time, so neither it nor the new `refilled` can overflow. -/
def refill (b : TokenBucket) (s : State) (now : Nat) : State :=
  if b.period = 0 then s
  else
    let elapsed := now - s.refilled
    let earned := elapsed / b.period
    if earned > 0 then
      let earned := min earned (2 ^ 32 - 1)
      { tokens := min (min (s.tokens + earned) (2 ^ 32 - 1)) b.burst
        refilled := s.refilled + b.period * earned }
    else s

def takeAt (b : TokenBucket) (s : State) (now : Nat) : Bool × State :=
  let s := b.refill s now
  if s.tokens = 0 then (false, s) else (true, { s with tokens := s.tokens - 1 })

/-- The calls at `times`, in this order: each with its answer. -/
def answers (b : TokenBucket) : State → List Nat → List (Nat × Bool)
  | _, [] => []
  | s, t :: times => (t, (b.takeAt s t).1) :: b.answers (b.takeAt s t).2 times

/-- The state they leave. -/
def after (b : TokenBucket) (s : State) (times : List Nat) : State :=
  times.foldl (fun s t => (b.takeAt s t).2) s

/-- How many of the calls up to `T` were admitted. -/
def admitted (T : Nat) (calls : List (Nat × Bool)) : Nat :=
  calls.countP fun c => decide (c.1 ≤ T) && c.2

variable {b : TokenBucket} {s : State} {now start T : Nat} {times : List Nat}

-- ==== one refill

/-- A refill goes on by whole periods, and not past the call. What it gives
is what it goes on by, up to the cap. -/
theorem refill_spec (b : TokenBucket) (s : State) (now : Nat) :
    ∃ n, (b.refill s now).refilled = s.refilled + b.period * n ∧
      (n = 0 ∨ s.refilled + b.period * n ≤ now) ∧
      (b.refill s now).tokens ≤ s.tokens + n ∧ (n = 0 ∨ 0 < b.period) := by
  unfold refill
  split
  · exact ⟨0, rfl, .inl rfl, Nat.le_refl _, .inl rfl⟩
  next hp =>
    dsimp only
    split
    next hearned =>
      have hle : b.period * min ((now - s.refilled) / b.period) (2 ^ 32 - 1) ≤ now - s.refilled :=
        Nat.le_trans (Nat.mul_le_mul_left _ (Nat.min_le_left _ _)) (Nat.mul_div_le _ _)
      have hlt : s.refilled ≤ now := by
        by_contra hgt
        rw [Nat.sub_eq_zero_of_le (by omega), Nat.zero_div] at hearned
        exact absurd hearned (Nat.lt_irrefl 0)
      refine ⟨_, rfl, .inr (by omega), ?_, .inr (by omega)⟩
      exact Nat.le_trans (Nat.min_le_left _ _) (Nat.min_le_left _ _)
    · exact ⟨0, rfl, .inl rfl, Nat.le_refl _, .inl rfl⟩

/-- What a bucket can admit up to `T`. -/
def reserve (b : TokenBucket) (s : State) (T : Nat) : Nat :=
  s.tokens + (T - s.refilled) / b.period

theorem reserve_refill (h : now ≤ T) : b.reserve (b.refill s now) T ≤ b.reserve s T := by
  obtain ⟨n, hrefilled, hnow, htokens, hperiod⟩ := refill_spec b s now
  unfold reserve
  rw [hrefilled]
  rcases hnow with rfl | hnow
  · rw [Nat.mul_zero, Nat.add_zero]
    omega
  · rcases hperiod with rfl | hperiod
    · rw [Nat.mul_zero, Nat.add_zero]
      omega
    · have hsplit : T - s.refilled = T - (s.refilled + b.period * n) + b.period * n := by omega
      rw [hsplit, Nat.add_mul_div_left _ _ hperiod]
      omega

/-- An admitted call spends one of the reserve. -/
theorem reserve_takeAt (h : now ≤ T) : (b.takeAt s now).1.toNat + b.reserve (b.takeAt s now).2 T ≤
      b.reserve s T := by
  refine Nat.le_trans ?_ (reserve_refill h)
  unfold takeAt reserve
  dsimp only
  split
  · simp
  · simp only [Bool.toNat_true]
    omega

-- ==== the bound

/-- If no call later than `T` comes before one that is not, the calls up to
`T` are admitted out of the reserve. -/
theorem admitted_le_reserve (h : times.Pairwise fun t u => u ≤ T → t ≤ T) :
    admitted T (b.answers s times) ≤ b.reserve s T := by
  induction times generalizing s with
  | nil => exact Nat.zero_le _
  | cons t times ih =>
    obtain ⟨hfirst, hrest⟩ := List.pairwise_cons.mp h
    by_cases ht : t ≤ T
    · have hcount : admitted T (b.answers s (t :: times)) =
          admitted T (b.answers (b.takeAt s t).2 times) + (b.takeAt s t).1.toNat := by
        show List.countP _ (_ :: _) = _
        rw [List.countP_cons, admitted]
        cases (b.takeAt s t).1 <;> simp [ht]
      have := ih (s := (b.takeAt s t).2) hrest
      have := reserve_takeAt (b := b) (s := s) ht
      omega
    · -- every later call is later than `T` as well
      have hnone (s : State) (us : List Nat) (hus : ∀ u ∈ us, ¬ u ≤ T) :
          admitted T (b.answers s us) = 0 := by
        induction us generalizing s with
        | nil => rfl
        | cons u us ihu =>
          show List.countP _ (_ :: _) = 0
          rw [List.countP_cons_of_neg (by simp [hus u])]
          exact ihu _ fun v hv => hus v (List.mem_cons_of_mem u hv)
      rw [hnone s (t :: times)]
      · exact Nat.zero_le _
      · intro u hu
        rcases List.mem_cons.mp hu with rfl | hu
        · exact ht
        · exact fun hle => ht (hfirst u hu hle)

-- ==== no time is lost

/-- The latest time so far. -/
def latest (start : Nat) (times : List Nat) : Nat := times.foldl max start

theorem refilled_takeAt : (b.takeAt s now).2.refilled = (b.refill s now).refilled := by
  unfold takeAt
  dsimp only
  split <;> rfl

/-- The bucket has been credited with whole periods from the start on, none
of them later than the latest call. -/
theorem refilled_after (b : TokenBucket) (start : Nat) (times : List Nat) :
    ∃ n, (b.after (b.new start) times).refilled = start + b.period * n ∧
      start + b.period * n ≤ latest start times := by
  induction times using List.reverseRecOn with
  | nil => exact ⟨0, rfl, Nat.le_refl _⟩
  | append_singleton times t ih =>
    obtain ⟨n, hn, hle⟩ := ih
    obtain ⟨m, hm, hnow, -, -⟩ :=
      refill_spec b (b.after (b.new start) times) t
    simp only [after, latest, List.foldl_append, List.foldl_cons,
      List.foldl_nil] at hn hle hm hnow ⊢
    rw [refilled_takeAt, hm, hn, Nat.add_assoc, ← Nat.mul_add]
    refine ⟨n + m, rfl, ?_⟩
    rw [hn, Nat.add_assoc, ← Nat.mul_add] at hnow
    rcases hnow with rfl | hnow
    · rw [Nat.add_zero]
      exact Nat.le_trans hle (Nat.le_max_left _ _)
    · exact Nat.le_trans hnow (Nat.le_max_right _ _)

/-- A call leaves less than a period uncredited, unless it is more periods
later than a `u32` counts. -/
theorem remainder_lt (hperiod : 0 < b.period) (hfew : (now - s.refilled) / b.period ≤ 2 ^ 32 - 1) :
    now - (b.takeAt s now).2.refilled < b.period := by
  rw [refilled_takeAt]
  have hmod := Nat.div_add_mod (now - s.refilled) b.period
  have hlt := Nat.mod_lt (now - s.refilled) hperiod
  unfold refill
  rw [if_neg (by omega)]
  dsimp only
  split
  · dsimp only
    rw [Nat.min_eq_left hfew]
    omega
  next hnone =>
    rw [Nat.eq_zero_of_not_pos hnone, Nat.mul_zero, Nat.zero_add] at hmod
    omega

/-- The periods of a burst without a call fill the bucket. -/
theorem refill_full (hperiod : 0 < b.period)
    (hnow : s.refilled + b.period * b.burst ≤ now) (htokens : s.tokens ≤ b.burst) :
    (b.refill s now).tokens = b.burst := by
  have hle := b.burst_le
  have hearned : b.burst ≤ (now - s.refilled) / b.period := by
    rw [Nat.le_div_iff_mul_le hperiod, Nat.mul_comm]
    omega
  unfold refill
  rw [if_neg (by omega)]
  dsimp only
  split
  · dsimp only
    omega
  · omega

theorem tokens_after (b : TokenBucket) (start : Nat) (times : List Nat) :
    (b.after (b.new start) times).tokens ≤ b.burst := by
  have hrefill (s : State) (hs : s.tokens ≤ b.burst) (t : Nat) :
      (b.refill s t).tokens ≤ b.burst := by
    unfold refill
    split
    · exact hs
    · dsimp only
      split
      · exact Nat.min_le_right _ _
      · exact hs
  induction times using List.reverseRecOn with
  | nil => exact Nat.le_refl _
  | append_singleton times t ih =>
    have hlast := hrefill _ ih t
    unfold after at hlast ⊢
    rw [List.foldl_append, List.foldl_cons, List.foldl_nil, takeAt]
    split
    · exact hlast
    · exact Nat.le_trans (Nat.sub_le _ _) hlast

-- ==== calls

/-- For any calls at any times: the calls up to `T` that are admitted number
at most the burst and the periods up to `T`, unless a call later than `T`
came before one of them. Periods are credited from the start on and not past
the latest call, a call leaves less than one uncredited, and the periods of
a burst after the latest call the whole burst is there. -/
theorem admissions_bounded (b : TokenBucket) (start : Nat)
    (times : List Nat) :
    (∀ T, (times.Pairwise fun t u => u ≤ T → t ≤ T) →
      admitted T (b.answers (b.new start) times) ≤
        b.burst + (T - start) / b.period) ∧
    (∃ n, (b.after (b.new start) times).refilled = start + b.period * n ∧
      start + b.period * n ≤ latest start times) ∧
    (0 < b.period → ∀ now,
      (now - (b.after (b.new start) times).refilled) / b.period ≤ 2 ^ 32 - 1 →
      now - (b.takeAt (b.after (b.new start) times) now).2.refilled <
        b.period) ∧
    (0 < b.period → ∀ now, latest start times + b.period * b.burst ≤ now →
      (b.refill (b.after (b.new start) times) now).tokens = b.burst) := by
  refine ⟨fun T h => admitted_le_reserve h, refilled_after b start times,
    fun hperiod now hfew => remainder_lt hperiod hfew,
    fun hperiod now hnow => refill_full hperiod ?_ (tokens_after b start times)⟩
  obtain ⟨n, hn, hle⟩ := refilled_after b start times
  omega

/-- Two at once, then one a second. -/
def twoThenOne : TokenBucket := ⟨2, 1000000000, by decide⟩

theorem admissions_bounded_in_order :
    admitted 0 (twoThenOne.answers (twoThenOne.new 0) [0, 0, 0, 2000000000])
      ≤ twoThenOne.burst + (0 - 0) / twoThenOne.period :=
  (admissions_bounded twoThenOne 0 [0, 0, 0, 2000000000]).1 0 (by decide)

/-- A caller that read the clock early and took the lock late is admitted by
what a later call earned: three calls at the start, and the burst is two. -/
theorem early_call_admitted_late :
    twoThenOne.burst + (0 - 0) / twoThenOne.period <
      admitted 0
        (twoThenOne.answers (twoThenOne.new 0) [0, 0, 2000000000, 0]) := by
  decide

end TokenBucket

end Rshyve.Core
