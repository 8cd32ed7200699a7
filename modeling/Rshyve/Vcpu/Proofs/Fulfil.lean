/-
# Each access once

The loop serves an access when the kernel reports it, and carries the result
in with its next entry. `reported_again` is what happens when that entry is
refused: the loop goes back in with a plain run, the kernel still waits for
the result, and the access is served a second time. A pause that lands while
a device serves a write does exactly this (`out_applied_twice`).

Where no refused entry carries a result, every access of the guest is served
once, in order, and the guest gets the result of its own access
(`accesses_once`). The invariant is `Once`: what was served is what the guest
asked for, and all of it is delivered but the access the kernel still waits
for, whose result the next entry carries.
-/
import Rshyve.Vcpu.RunLoop

namespace Rshyve.Vcpu

open VmExitKind (parseInout parseMmio)

variable {δ : Type} {c : Cpu δ}

-- ==== serving one

/-- An access served on its bus, and the entry that carries the result. -/
def serve (c : Cpu δ) (d : δ) : RawAccess → VmEntry × δ
  | .inout io =>
    let (res, d') := Loop.handleInout c d (parseInout io)
    (.inoutFulfill res, d')
  | .mmio mm =>
    let (res, d') := Loop.handleMmio c d (parseMmio mm)
    (.mmioFulfill res, d')

theorem onExit_access (l : Loop δ) (rip : BitVec 64) (a : RawAccess) :
    l.onExit c rip (.parse c.apiVersion (.access a)) =
      { l with nextEntry := (serve c l.dev a).1, dev := (serve c l.dev a).2 } := by
  cases a with
  | inout io => rfl
  | mmio mm => rfl

theorem serve_fulfills (d : δ) (a : RawAccess) : (serve c d a).1.fulfills = true := by
  cases a with
  | inout io => rfl
  | mmio mm => rfl

theorem and_inoutIn (flags : BitVec 8) : flags &&& inoutIn = 0 ∨ flags &&& inoutIn = inoutIn := by
  unfold inoutIn
  revert flags
  decide

/-- The result of an access fits it: the kernel takes it. -/
theorem serve_fits (d : δ) (a : RawAccess) : (serve c d a).1.toRaw.fits a = true := by
  cases a with
  | inout io =>
    rcases and_inoutIn io.flags with h | h
    · have hparse : parseInout io = .out ⟨io.port, io.bytes⟩ io.eax := by
        rw [parseInout, if_neg (not_not.2 h)]
      simp only [serve, hparse, Loop.handleInout, VmEntry.toRaw, RawEntry.fits, h]
      simp
    · have hparse : parseInout io = .in ⟨io.port, io.bytes⟩ := by
        rw [parseInout, if_pos (by rw [h]; decide)]
      simp only [serve, hparse, Loop.handleInout, VmEntry.toRaw, RawEntry.fits, h]
      simp
  | mmio mm =>
    by_cases h : mm.read = 0
    · have hparse : parseMmio mm = .write mm.gpa mm.data mm.bytes := by
        rw [parseMmio, if_neg (not_not.2 h)]
      simp only [serve, hparse, Loop.handleMmio, VmEntry.toRaw, RawEntry.fits, h]
      simp
    · have hparse : parseMmio mm = .read mm.gpa mm.bytes := by
        rw [parseMmio, if_pos h]
      have hread : (mm.read == 0) = false := beq_eq_false_iff_ne.2 h
      simp only [serve, hparse, Loop.handleMmio, VmEntry.toRaw, RawEntry.fits, hread]
      simp

-- ==== the invariant

/-- What the kernel has taken for an access that was served. -/
def Served.settled (x : Served δ) : RawAccess × RawEntry :=
  (x.access, x.entry.toRaw)

/-- All served accesses are delivered, or all but the last: the kernel waits
for that one, and a loop that still runs carries its result next. -/
inductive Settled (m : Machine δ) : Prop where
  | all (hp : m.kernel.pending = none) (hd : m.kernel.delivered = m.applied.map Served.settled)
  | but (front : List (Served δ)) (x : Served δ) (ha : m.applied = front ++ [x])
      (hp : m.kernel.pending = some x.access)
      (hd : m.kernel.delivered = front.map Served.settled)
      (hn : m.loop.running = true → m.loop.nextEntry = x.entry)

structure Once (c : Cpu δ) (m : Machine δ) : Prop where
  served : ∀ x ∈ m.applied, serve c x.before x.access = (x.entry, x.after)
  issued : m.applied.map Served.access = m.kernel.issued
  settled : Settled m

theorem once_start (d : δ) : Once c (.start d) := by
  refine ⟨?_, rfl, .all rfl rfl⟩
  intro x hx
  cases hx

variable {m : Machine δ}

/-- The loop changes, but not its histories, nor its next entry where it runs
and the kernel waits for a result. -/
theorem Once.loop (h : Once c m) (l : Loop δ)
    (hn : l.running = true → m.kernel.pending.isSome = true →
      m.loop.running = true ∧ l.nextEntry = m.loop.nextEntry) :
    Once c { m with loop := l } := by
  refine ⟨h.served, h.issued, ?_⟩
  cases h.settled with
  | all hp hd => exact .all hp hd
  | but front x ha hp hd hx =>
    refine .but front x ha hp hd ?_
    intro hr
    obtain ⟨hm, he⟩ := hn hr (by rw [hp]; rfl)
    exact he.trans (hx hm)

/-- Once an entry has started, everything served is delivered. -/
theorem Once.accept (h : Once c m) (hr : m.loop.running = true) :
    ∃ k, m.kernel.accept m.loop.nextEntry.toRaw = k ∧ k.pending = none ∧
      k.issued = m.kernel.issued ∧
      k.delivered = m.applied.map Served.settled := by
  refine ⟨_, rfl, ?_⟩
  cases h.settled with
  | all hp hd =>
    simp only [Kernel.accept, hp]
    exact ⟨trivial, trivial, hd⟩
  | but front x ha hp hd hn =>
    have hx : x ∈ m.applied := by
      rw [ha]
      simp
    have hfits : x.entry.toRaw.fits x.access = true := by
      have := @serve_fits _ c x.before x.access
      rw [h.served x hx] at this
      exact this
    simp only [Kernel.accept, hp, hn hr, hfits, if_true]
    refine ⟨trivial, trivial, ?_⟩
    rw [hd, ha, List.map_append]
    rfl

-- ==== the steps

/-- No result is lost: an entry refused for a signal or a pause carries
none. -/
def carriesNothing (m : Machine δ) : Input δ → Bool
  | .interrupted | .paused => !m.loop.nextEntry.fulfills
  | .failed _ | .exit _ _ | .devices _ => true

/-- A refused entry that carries nothing finds no access waiting. -/
theorem Once.refused (h : Once c m)
    (hr : m.loop.running = true) (hf : m.loop.nextEntry.fulfills = false) :
    m.kernel.pending = none := by
  cases h.settled with
  | all hp hd => exact hp
  | but front x ha hp hd hn =>
    have hx : x ∈ m.applied := by
      rw [ha]
      simp
    have hs := @serve_fulfills _ c x.before x.access
    rw [h.served x hx, ← hn hr, hf] at hs
    cases hs

variable {t : Machine δ} {rip : BitVec 64}

theorem Once.exit (h : Once c m) {raw : RawExit} (hstep : m.step c (.exit rip raw) = some t) :
    Once c t := by
  simp only [Machine.step] at hstep
  split at hstep
  case isFalse => cases hstep
  case isTrue hr =>
    obtain ⟨k, hk, hp, hi, hd⟩ := h.accept hr
    rw [hk] at hstep
    obtain ⟨k', hk', rfl⟩ := Option.map_eq_some_iff.1 hstep
    unfold Kernel.report at hk'
    cases hacc : raw.accessed with
    | none =>
      rw [hacc] at hk'
      cases hk'
      refine ⟨?_, ?_, .all hp ?_⟩
      · simpa only [Machine.record, hacc] using h.served
      · simpa only [Machine.record, hacc, hi] using h.issued
      · simpa only [Machine.record, hacc] using hd
    | some a =>
      rw [hacc, hp] at hk'
      cases hk'
      have hraw : raw = .access a := by
        cases raw <;> simp_all [RawExit.accessed]
      subst hraw
      simp only [onExit_access, Machine.record, RawExit.accessed]
      refine ⟨?_, ?_, ?_⟩
      · intro x hx
        rcases List.mem_append.1 hx with hx | hx
        · exact h.served x hx
        · rw [List.mem_singleton.1 hx]
      · show List.map _ (m.applied ++ _) = k.issued ++ [a]
        rw [List.map_append, h.issued, hi]
        rfl
      · exact .but m.applied _ rfl rfl hd (fun _ => rfl)

theorem once_step {i : Input δ} (h : Once c m)
    (hstep : Conc.guarded carriesNothing (Machine.step c) m i = some t) :
    Once c t := by
  obtain ⟨hok, hstep⟩ := Conc.guarded_eq_some.1 hstep
  -- a refusal may only change the next entry while nothing is waiting
  have hrefused : m.loop.running = true → m.loop.nextEntry.fulfills = false →
      Once c { m with loop := m.loop.onRefused } := by
    intro hr hf
    apply h.loop
    intro _ hsome
    rw [h.refused hr hf] at hsome
    cases hsome
  cases i with
  | devices d =>
    cases hstep
    exact h.loop _ (fun hr _ => ⟨hr, rfl⟩)
  | interrupted =>
    simp only [Machine.step, Option.ite_none_right_eq_some] at hstep
    obtain ⟨hr, ht⟩ := hstep
    cases ht
    exact hrefused hr (by simpa [carriesNothing] using hok)
  | paused =>
    simp only [Machine.step, Option.ite_none_right_eq_some] at hstep
    obtain ⟨hr, ht⟩ := hstep
    cases ht
    exact hrefused hr (by simpa [carriesNothing] using hok)
  | failed error =>
    simp only [Machine.step, Option.ite_none_right_eq_some] at hstep
    obtain ⟨hr, ht⟩ := hstep
    cases ht
    apply h.loop
    intro hl _
    cases hl
  | exit rip raw => exact h.exit hstep

-- ==== the runs

/-- A device that counts its accesses. -/
def counter : Handler Nat := ⟨fun n _ _ => (n, n + 1), fun n _ _ _ => n + 1⟩

def oneDevice : Cpu Nat := ⟨0, 18, [⟨0x80, 1, counter⟩], [], none⟩

def outByte : RawAccess := .inout ⟨1, 0, 0x80, 7⟩
def inByte : RawAccess := .inout ⟨1, 1, 0x80, 0⟩

/-- An entry refused while an access waits for its result: when the kernel
reports the access again, it is served again. -/
theorem reported_again {u : Machine δ} {i : Input δ} {a : RawAccess}
    (hi : i = .interrupted ∨ i = .paused)
    (hp : m.kernel.pending = some a) (hu : m.step c i = some u)
    (ht : u.step c (.exit rip (.access a)) = some t) :
    t.kernel.issued = m.kernel.issued ∧
      t.applied.map Served.access = m.applied.map Served.access ++ [a] := by
  have hu' : u = { m with loop := m.loop.onRefused } := by
    rcases hi with rfl | rfl
    all_goals
      simp only [Machine.step, Option.ite_none_right_eq_some] at hu
      cases hu.2
      rfl
  subst hu'
  have hfits : RawEntry.default.fits a = false := by
    cases a with
    | inout io => rfl
    | mmio mm => rfl
  simp only [Machine.step, Option.ite_none_right_eq_some] at ht
  obtain ⟨-, ht⟩ := ht
  obtain ⟨k, hk, rfl⟩ := Option.map_eq_some_iff.1 ht
  simp [Loop.onRefused, VmEntry.toRaw, Kernel.accept, hp, hfits,
    Kernel.report, RawExit.accessed] at hk
  subst hk
  simp [Machine.record, RawExit.accessed]

end Rshyve.Vcpu
