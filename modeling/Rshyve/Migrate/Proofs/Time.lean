/-
# Time adjustment

No source clock makes `adjust_time` overflow, and what it returns keeps the
guest's time: its uptime and its TSC go on by the wall-clock time between
the export and the import.

A source clock ahead of the destination's is taken for skew, whatever its
size, and the guest then goes on from where it was. So the bound on the gap
only works in one direction.
-/
import Rshyve.Migrate.Time

namespace Rshyve.Migrate

open Bytes

-- ==== what is meant

/-- The guest's uptime. -/
def TimeInfo.uptime (t : TimeInfo) : Int := t.hrtime.toInt - t.bootHrtime.toInt

/-- The wall clock in nanoseconds. -/
def TimeInfo.wall (t : TimeInfo) : Int :=
  t.hresSec.toNat * 1000000000 + t.hresNs.toNat

/-- The time between export and import, by the two wall clocks. -/
def elapsed (src dst : TimeInfo) : Int := max (dst.wall - src.wall) 0

/-- The exported TSC in ticks of the destination's frequency. A source
without a frequency has nothing to scale by. -/
def rescaled (src dst : TimeInfo) : Nat :=
  if src.guestFreq = 0 then src.guestTsc.toNat
  else src.guestTsc.toNat * dst.guestFreq.toNat / src.guestFreq.toNat

/-- `new` is the source's clock on the destination's time base. -/
structure Adjusted (src dst new : TimeInfo) : Prop where
  uptime : new.uptime = src.uptime + elapsed src dst
  boot : new.bootHrtime.toInt ≤ dst.hrtime.toInt
  tsc : new.guestTsc.toNat = (rescaled src dst
      + (elapsed src dst).toNat * dst.guestFreq.toNat / 1000000000) % 2 ^ 64
  freq : new.guestFreq = dst.guestFreq
  hrtime : new.hrtime = dst.hrtime
  wall : new.hresSec = dst.hresSec ∧ new.hresNs = dst.hresNs
  gap : dst.wall - src.wall ≤ maxMigrateDeltaNs

-- ==== results

section Yields

variable {α β : Type}

/-- The computation does not panic, and what it returns satisfies `Q`. -/
def Yields (p : Checked α) (Q : α → Prop) : Prop :=
  ∃ r, p.run = some r ∧ ∀ a, r = .ok a → Q a

variable {Q : α → Prop}

theorem Yields.pure {a : α} (h : Q a) : Yields (Pure.pure a) Q :=
  ⟨.ok a, rfl, fun _ heq => by cases heq; exact h⟩

theorem Yields.throw (e : MigrateError) (Q : α → Prop) : Yields (MonadExcept.throw e) Q :=
  ⟨.error e, rfl, nofun⟩

theorem Yields.bind {p : Checked α} {q : α → Checked β} {P : α → Prop}
    {Q : β → Prop} (hp : Yields p P) (hq : ∀ a, P a → Yields (q a) Q) :
    Yields (p >>= q) Q := by
  obtain ⟨r, hr, hP⟩ := hp
  have hrun : (p >>= q).run = (some r >>= ExceptT.bindCont q) := by
    rw [← hr]
    rfl
  cases r with
  | error e => exact ⟨.error e, hrun, nofun⟩
  | ok a =>
    obtain ⟨r', hr', hQ⟩ := hq a (hP a rfl)
    exact ⟨r', hrun.trans hr', hQ⟩

theorem Yields.orBad {x : Option α} {what : String}
    (h : ∀ a, x = some a → Q a) : Yields (orBad x what) Q := by
  cases x with
  | none => exact Yields.throw _ Q
  | some a => exact Yields.pure (h a rfl)

/-- A plain operator in range. -/
theorem Yields.plain {x : Option α} {a : α} (hx : x = some a) (h : Q a) : Yields (plain x) Q := by
  subst hx
  exact Yields.pure h

theorem Yields.step {x : Except MigrateError α} {Q : α → Prop}
    (h : ∀ a, x = .ok a → Q a) : Yields (ExceptT.mk (some x)) Q :=
  ⟨x, rfl, h⟩

end Yields

-- ==== ranges

theorem i64TryFrom_some {x : Int} {v : Int64} (h : i64TryFrom x = some v) : v.toInt = x := by
  unfold i64TryFrom at h
  split at h
  case isTrue hx =>
    cases h
    exact Int64.toInt_ofInt_of_le hx.1 hx.2
  case isFalse => cases h

theorem u64TryFrom_some {x : Int} {v : UInt64} (h : u64TryFrom x = some v) :
    (v.toNat : Int) = x := by
  unfold u64TryFrom at h
  split at h
  case isTrue hx =>
    cases h
    have hlt : x.toNat < 2 ^ 64 := by omega
    rw [UInt64.toNat_ofNat', Nat.mod_eq_of_lt hlt]
    omega
  case isFalse => cases h

theorem not_pos_iff {v : UInt64} : ¬ v > 0 ↔ v = 0 := by
  rw [gt_iff_lt, UInt64.lt_iff_toNat_lt, ← UInt64.toNat_inj, UInt64.toNat_zero,
    Nat.not_lt, Nat.le_zero]

theorem i128_of_bounds {x : Int} (h : -2 ^ 127 ≤ x ∧ x < 2 ^ 127) : i128 x = some x :=
  if_pos h

theorem wall_bounds (t : TimeInfo) : 0 ≤ t.wall ∧ t.wall < 2 ^ 95 := by
  have hs := t.hresSec.toNat_lt
  have hn := t.hresNs.toNat_lt
  unfold TimeInfo.wall
  omega

theorem wallNs_eq (t : TimeInfo) : wallNs t.hresSec t.hresNs = some t.wall := by
  have hs := t.hresSec.toNat_lt
  have hn := t.hresNs.toNat_lt
  unfold wallNs TimeInfo.wall
  rw [i128_of_bounds (by omega), Option.bind_eq_bind, Option.bind_some, i128_of_bounds (by omega)]

-- ==== steps

theorem guestUptime_yields (src : TimeInfo) :
    Yields (guestUptime src) fun up => up.toInt = src.uptime ∧ 0 ≤ src.uptime := by
  refine Yields.bind (Yields.orBad fun _ h => i64TryFrom_some h) fun up hup => ?_
  split
  · exact Yields.throw _ _
  case isFalse hneg =>
    refine Yields.pure ⟨hup, ?_⟩
    unfold TimeInfo.uptime
    omega

theorem migrateDelta_yields (src dst : TimeInfo) : Yields (migrateDelta src dst) fun delta =>
      delta = elapsed src dst ∧ dst.wall - src.wall ≤ maxMigrateDeltaNs := by
  have hsrc := wall_bounds src
  have hdst := wall_bounds dst
  unfold migrateDelta
  rw [wallNs_eq, wallNs_eq]
  refine Yields.bind (P := (· = src.wall)) (Yields.pure rfl) ?_
  rintro _ rfl
  refine Yields.bind (P := (· = dst.wall)) (Yields.pure rfl) ?_
  rintro _ rfl
  refine Yields.bind (P := (· = dst.wall - src.wall))
    (Yields.plain (i128_of_bounds (by omega)) rfl) ?_
  rintro _ rfl
  dsimp only
  split
  · exact Yields.throw _ _
  case isFalse hgap =>
    refine Yields.pure ⟨rfl, ?_⟩
    omega

/-- What an accepted gap comes to. -/
theorem elapsed_bounds {src dst : TimeInfo} (h : dst.wall - src.wall ≤ maxMigrateDeltaNs) :
    0 ≤ elapsed src dst ∧ elapsed src dst ≤ 3600 * 1000000000 := by
  unfold maxMigrateDeltaNs at h
  unfold elapsed
  omega

theorem newBootHrtime_yields (dst : TimeInfo) {up : Int64} {delta : Int}
    (hdelta : 0 ≤ delta ∧ delta ≤ 3600 * 1000000000) :
    Yields (newBootHrtime dst up delta) fun boot =>
      boot.toInt = dst.hrtime.toInt - (up.toInt + delta) := by
  have hup := up.toInt_lt
  have hup' := up.le_toInt
  have hdst := dst.hrtime.toInt_lt
  have hdst' := dst.hrtime.le_toInt
  refine Yields.bind (P := (· = up.toInt + delta)) (Yields.plain (i128_of_bounds (by omega)) rfl) ?_
  rintro _ rfl
  refine Yields.bind (P := (· = dst.hrtime.toInt - (up.toInt + delta)))
    (Yields.plain (i128_of_bounds (by omega)) rfl) ?_
  rintro _ rfl
  exact Yields.orBad fun _ h => i64TryFrom_some h

theorem newGuestFreq_eq (src dst : TimeInfo) : newGuestFreq src dst = dst.guestFreq := by
  unfold newGuestFreq
  split
  · rfl
  case isFalse h => exact (not_not.1 h).symm

theorem tscDelta_yields (src dst : TimeInfo) {delta : Int}
    (hdelta : 0 ≤ delta ∧ delta ≤ 3600 * 1000000000) :
    Yields (tscDelta src dst delta) fun ticks =>
      ticks.toNat = delta.toNat * dst.guestFreq.toNat / 1000000000 := by
  have hfreq := dst.guestFreq.toNat_lt
  obtain ⟨n, rfl⟩ := Int.eq_ofNat_of_zero_le hdelta.1
  have hprod : n * dst.guestFreq.toNat < 2 ^ 127 := by
    calc n * dst.guestFreq.toNat
      _ ≤ 3600 * 1000000000 * 2 ^ 64 := Nat.mul_le_mul (by omega) (by omega)
      _ < 2 ^ 127 := by decide
  unfold tscDelta
  rw [newGuestFreq_eq]
  split
  · refine Yields.bind (P := (· = (n : Int) * dst.guestFreq.toNat))
      (Yields.plain (i128_of_bounds (by omega)) rfl) ?_
    rintro _ rfl
    refine Yields.orBad fun ticks h => ?_
    have hticks := u64TryFrom_some h
    rw [← Int.natCast_mul] at hticks
    exact Int.ofNat.inj hticks
  case isFalse hzero =>
    refine Yields.pure ?_
    rw [not_pos_iff.1 hzero]
    simp

theorem scaledGuestTsc_yields (src dst : TimeInfo) : Yields (scaledGuestTsc src dst) fun scaled =>
      scaled.toNat = rescaled src dst := by
  have htsc := src.guestTsc.toNat_lt
  have hfreq := dst.guestFreq.toNat_lt
  have hprod : src.guestTsc.toNat * dst.guestFreq.toNat < 2 ^ 128 := by
    calc src.guestTsc.toNat * dst.guestFreq.toNat
      _ < 2 ^ 64 * 2 ^ 64 := Nat.mul_lt_mul'' htsc hfreq
      _ = 2 ^ 128 := by decide
  unfold scaledGuestTsc rescaled
  split
  case isTrue h =>
    rw [if_neg fun hzero => not_pos_iff.2 hzero h.2]
    refine Yields.bind (P := (· = src.guestTsc.toNat * dst.guestFreq.toNat))
      (Yields.plain (if_pos hprod) rfl) ?_
    rintro _ rfl
    exact Yields.orBad fun _ h => Int.ofNat.inj (u64TryFrom_some h)
  case isFalse h =>
    refine Yields.pure ?_
    split
    · rfl
    case isFalse hzero =>
      -- equal frequencies: the scaling is by one
      have hpos : 0 < src.guestFreq.toNat :=
        Nat.pos_of_ne_zero fun h0 => hzero (UInt64.toNat.inj h0)
      have heq : dst.guestFreq = src.guestFreq :=
        not_not.1 fun hne =>
          h ⟨hne, not_not.1 fun hn => hzero (not_pos_iff.1 hn)⟩
      rw [heq, Nat.mul_div_cancel _ hpos]

/-- No pair of clocks makes the adjustment panic, and its result is the
source's clock on the destination's time base. -/
theorem adjustTime_yields (src dst : TimeInfo) :
    Yields (adjustTime src dst) (Adjusted src dst) := by
  refine Yields.bind (guestUptime_yields src) fun up ⟨hup, hpos⟩ => ?_
  refine Yields.bind (migrateDelta_yields src dst) ?_
  rintro _ ⟨rfl, hgap⟩
  have hbounds := elapsed_bounds hgap
  refine Yields.bind (newBootHrtime_yields dst hbounds) fun boot hboot => ?_
  refine Yields.bind (tscDelta_yields src dst hbounds) fun ticks hticks => ?_
  refine Yields.bind (scaledGuestTsc_yields src dst) fun scaled hscaled => ?_
  refine Yields.pure ?_
  exact
    { uptime := by
        simp only [TimeInfo.uptime] at hup ⊢
        omega
      boot := by
        show boot.toInt ≤ _
        omega
      tsc := by
        rw [UInt64.toNat_add, hscaled, hticks]
      freq := newGuestFreq_eq src dst
      hrtime := rfl
      wall := ⟨rfl, rfl⟩
      gap := hgap }

-- ==== import

theorem drop_word {n : Nat} (h : 8 ≤ n) (x : Nat) : (le 8 x).drop n = [] :=
  List.drop_eq_nil_of_le (by rw [le_length]; exact h)

theorem take_word (x : Nat) : (le 8 x).take 8 = le 8 x :=
  List.take_of_length_le (by simp)

theorem ofLe_word (v : UInt64) : ofLe (le 8 v.toNat) = v.toNat :=
  ofLe_le_of_lt v.toNat_lt

theorem ofBytes_bytes (t : TimeInfo) : TimeInfo.ofBytes t.bytes = t := by
  simp [TimeInfo.ofBytes, TimeInfo.bytes, List.drop_append, drop_word, take_word, ofLe_word]

/-- Whatever a peer sends as its clock and whatever the local clock reads,
the import does not panic. What it writes is the peer's clock on the local
time base: the uptime and the TSC go on by the time between the two wall
clocks, and the boot time is not in the future. A local clock more than an
hour ahead of the peer's is refused; one behind it counts as no time at
all. -/
theorem time_adjusted (versions : Except String (List VersionEntry))
    (read : Except String TimeInfo) (time : TimeData) :
    ∃ r, (importTimeData versions read time).run = some r ∧
      (∀ written, r = .ok written → ∃ dst, read = .ok dst ∧
        Adjusted (.ofBytes time.vmmTime) dst (.ofBytes written)) ∧
      ∀ dst, read = .ok dst →
        maxMigrateDeltaNs < dst.wall - (TimeInfo.ofBytes time.vmmTime).wall →
        ∃ e, r = .error e := by
  have hyields : Yields (importTimeData versions read time) fun written =>
      ∃ dst, read = .ok dst ∧
        Adjusted (.ofBytes time.vmmTime) dst (.ofBytes written) := by
    refine Yields.bind (P := fun _ => True) (Yields.step fun _ _ => trivial)
      fun layouts _ => ?_
    refine Yields.bind (P := fun _ => True) (Yields.step fun _ _ => trivial)
      fun _ _ => ?_
    split
    · exact Yields.throw _ _
    refine Yields.bind (P := fun dst => read = .ok dst)
      (Yields.step fun dst hdst => ?_) fun dst hdst => ?_
    · cases read with
      | error e => cases hdst
      | ok t => cases hdst; rfl
    refine Yields.bind (adjustTime_yields _ dst) fun new hnew => ?_
    refine Yields.pure ⟨dst, hdst, ?_⟩
    rwa [ofBytes_bytes]
  obtain ⟨r, hr, hok⟩ := hyields
  refine ⟨r, hr, hok, fun dst hdst hgap => ?_⟩
  cases r with
  | error e => exact ⟨e, rfl⟩
  | ok written =>
    obtain ⟨dst', hdst', hadj⟩ := hok written rfl
    cases hdst.symm.trans hdst'
    exact absurd hadj.gap (by omega)

/-- A source clock a day ahead is accepted, and the guest resumes with the
uptime it had. -/
theorem day_ahead_accepted :
    ∃ src dst new : TimeInfo, (adjustTime src dst).run = some (.ok new) ∧
      src.wall - dst.wall = 24 * maxMigrateDeltaNs ∧
      new.uptime = src.uptime := by
  refine ⟨⟨3000000000, 1000, 0, 10000000000, 86500, 0⟩,
    ⟨3000000000, 0, 0, 50000000000, 100, 0⟩,
    ⟨3000000000, 1000, 40000000000, 50000000000, 100, 0⟩, ?_, ?_, ?_⟩
  · decide
  · decide
  · decide

end Rshyve.Migrate
