/-
# The backend barrier of virtio-blk

`vmm-virtio/src/block/access.rs`, with `retire_rings` of `block.rs` and what
both use of `access.rs`: which disk operations of one driver can run beside
those of the next.

A step is one critical section or one atomic access. `admit` is taken at its
load of the generation, since nobody else sees the barrier before it gives
the lock up. The transport runs kicks and retirements one at a time: a ring
write retires under its lock, and a reset closes the latch first. So a tag
is only made between retirements.

The retirements that passed the barrier are counted by its epoch. The history
is in `created`, the epoch begun by the retirement that created the queue's
generation; a tag is kept with it.
-/
import Rshyve.Conc.Trace
import Rshyve.Virtio.Block

namespace Rshyve.Virtio.Blk

-- ==== the barrier

structure BarrierState where
  epoch : Nat
  liveWrites : Nat
  staleWrites : Nat

namespace BarrierState

/-- What `admit` does for a current generation: `none` waits. -/
def admitOp (st : BarrierState) (writes : Bool) : Option (Ticket × BarrierState) :=
  if st.staleWrites ≠ 0 then none
  else some (⟨st.epoch, writes⟩, if writes then { st with liveWrites := st.liveWrites + 1 } else st)

def retire (st : BarrierState) : BarrierState :=
  ⟨st.epoch + 1, 0, st.staleWrites + st.liveWrites⟩

/-- `Drop for Ticket`: `none` is an underflow. -/
def drop (st : BarrierState) (ticket : Ticket) : Option BarrierState :=
  if !ticket.writes then some st
  else if st.epoch = ticket.epoch then
    if st.liveWrites = 0 then none
    else some { st with liveWrites := st.liveWrites - 1 }
  else if st.staleWrites = 0 then none
  else some { st with staleWrites := st.staleWrites - 1 }

end BarrierState

-- ==== the device

/-- Where a retirement stands: generations to end, the barrier next; the
sections to wait for; admission to open. -/
inductive Phase where
  | idle
  | closing (queues : List Nat)
  | draining
  | reopening
  deriving DecidableEq

structure Backend where
  barrier : BarrierState
  generations : Nat → Nat
  created : Nat → Nat
  tags : List (RingTag × Nat)
  running : List Ticket
  sections : Nat
  phase : Phase

/-- A kick makes a tag; a worker has an operation admitted under one, ends
it, or is in a guest-memory section, which may take its lock late; a driver
retires rings. -/
inductive Act where
  | kick (q : Nat)
  | admission (tag : RingTag) (writes : Bool)
  | drop (t : Ticket)
  | enter
  | leave
  | retire (queue : Option Nat)
  | proceed

namespace Backend

def new : Backend :=
  ⟨⟨0, 0, 0⟩, fun _ => 0, fun _ => 0, [], [], 0, .idle⟩

/-- `BackendBarrier::admit`, which refuses a generation that has ended. -/
def admitOp (w : Backend) (tag : RingTag) (writes : Bool) : Option (Ticket × BarrierState) :=
  if w.generations tag.queueIdx ≠ tag.generation then none
  else w.barrier.admitOp writes

/-- The next step of `retire_rings`. -/
def proceed (w : Backend) : Option Backend :=
  match w.phase with
  | .idle => none
  | .closing (q :: queues) =>
    some { w with
      generations := Function.update w.generations q (w.generations q + 1)
      created := Function.update w.created q (w.barrier.epoch + 1)
      phase := .closing queues }
  | .closing [] =>
    some { w with barrier := w.barrier.retire, phase := .draining }
  | .draining =>
    if w.sections = 0 then some { w with phase := .reopening } else none
  | .reopening => some { w with phase := .idle }

/-- A device with `n` queues. -/
def step (n : Nat) (w : Backend) : Act → Option Backend
  | .kick q =>
    if w.phase = .idle ∧ q < n then
      some { w with tags := (⟨q, w.generations q⟩, w.created q) :: w.tags }
    else none
  | .admission tag writes =>
    if tag ∈ w.tags.map Prod.fst then
      (w.admitOp tag writes).map fun r =>
        { w with barrier := r.2, running := r.1 :: w.running }
    else none
  | .drop t =>
    if t ∈ w.running then
      (w.barrier.drop t).map fun st =>
        { w with barrier := st, running := w.running.erase t }
    else none
  | .enter => some { w with sections := w.sections + 1 }
  | .leave =>
    if w.sections = 0 then none
    else some { w with sections := w.sections - 1 }
  | .retire queue =>
    if w.phase = .idle then
      some { w with phase := .closing (match queue with
        | some q => if q < n then [q] else []
        | none => List.range n) }
    else none
  | .proceed => w.proceed

end Backend

/-- How far a generation can be ahead of the barrier. -/
@[simp] def Phase.ahead : Phase → Nat
  | .closing _ => 1
  | _ => 0

/-- The running writes of the epochs in `p`. -/
def writesOf (running : List Ticket) (p : Nat → Bool) : Nat :=
  running.countP fun t => t.writes && p t.epoch

theorem writesOf_succ (running : List Ticket) (e : Nat) : writesOf running (· < e + 1) =
      writesOf running (· < e) + writesOf running (· = e) := by
  induction running with
  | nil => rfl
  | cons t ts ih =>
    cases hw : t.writes <;> simp [writesOf, List.countP_cons, hw] at ih ⊢
    · exact ih
    · split_ifs <;> omega

namespace Backend

-- ==== the invariant

structure Inv (w : Backend) : Prop where
  past : ∀ t ∈ w.running, t.epoch ≤ w.barrier.epoch
  live : w.barrier.liveWrites = writesOf w.running (· = w.barrier.epoch)
  stale : w.barrier.staleWrites = writesOf w.running (· < w.barrier.epoch)
  tags : ∀ x ∈ w.tags, x.2 ≤ w.barrier.epoch
  created : ∀ q, w.created q ≤ w.barrier.epoch + w.phase.ahead

variable {n : Nat} {w w' : Backend} {tag : RingTag} {b : Bool} {r : Ticket × BarrierState}

/-- An operation is admitted with no write of an earlier epoch running. -/
theorem admitOp_eq_some (hr : w.admitOp tag b = some r) :
    w.barrier.staleWrites = 0 ∧ r = (⟨w.barrier.epoch, b⟩, if b then
      { w.barrier with liveWrites := w.barrier.liveWrites + 1 }
      else w.barrier) := by
  unfold Backend.admitOp BarrierState.admitOp at hr
  simp only [Option.ite_none_left_eq_some, not_not, Option.some.injEq] at hr
  exact ⟨hr.2.1, hr.2.2.symm⟩

theorem Inv.admitOp (h : w.Inv) (hr : w.admitOp tag b = some r) :
    Inv { w with barrier := r.2, running := r.1 :: w.running } := by
  obtain ⟨-, rfl⟩ := admitOp_eq_some hr
  have hpast : ∀ t ∈ (⟨w.barrier.epoch, b⟩ : Ticket) :: w.running,
      t.epoch ≤ w.barrier.epoch := List.forall_mem_cons.mpr ⟨Nat.le_refl _, h.past⟩
  cases b <;> exact { h with
    past := hpast
    live := by simpa [writesOf] using h.live
    stale := by simpa [writesOf] using h.stale }

/-- A running write is on the count it went onto. -/
theorem Inv.drop (h : w.Inv) {t : Ticket} (ht : t ∈ w.running) : ∃ st, w.barrier.drop t = some st ∧
      Inv { w with barrier := st, running := w.running.erase t } := by
  have hle := h.past t ht
  have hcount (p : Nat → Bool) : writesOf w.running p = writesOf (w.running.erase t) p +
        if (t.writes && p t.epoch) = true then 1 else 0 := by
    unfold writesOf
    rw [(List.perm_cons_erase ht).countP_eq, List.countP_cons]
  refine ⟨⟨w.barrier.epoch, writesOf (w.running.erase t) (· = w.barrier.epoch),
    writesOf (w.running.erase t) (· < w.barrier.epoch)⟩, ?_,
    { h with
      past := fun x hx => h.past x (List.mem_of_mem_erase hx)
      live := rfl
      stale := rfl }⟩
  have hlive := h.live.trans (hcount _)
  have hstale := h.stale.trans (hcount _)
  unfold BarrierState.drop
  cases hw : t.writes with
  | false =>
    simp_all
    rw [← hlive, ← hstale]
  | true =>
    by_cases hnow : w.barrier.epoch = t.epoch
    · simp_all
    · have hlt : t.epoch < w.barrier.epoch := by omega
      simp_all [Ne.symm hnow]

theorem Inv.proceed (h : w.Inv) (hs : w.proceed = some w') : w'.Inv := by
  have hahead := h.created
  unfold Backend.proceed at hs
  split at hs
  · cases hs
  next q queues hp =>
    cases hs
    rw [hp] at hahead
    refine { h with created := fun j => ?_ }
    by_cases hj : j = q
    · simp [hj]
    · simpa [hj] using hahead j
  next hp =>
    cases hs
    rw [hp] at hahead
    have hstale := congrArg₂ (· + ·) h.stale h.live
    rw [← writesOf_succ] at hstale
    refine ⟨fun t ht => Nat.le_succ_of_le (h.past t ht), ?_, hstale,
      fun x hx => Nat.le_succ_of_le (h.tags x hx), hahead⟩
    refine (List.countP_eq_zero.mpr fun t ht => ?_).symm
    have hne : t.epoch ≠ w.barrier.epoch + 1 := by
      have := h.past t ht
      omega
    simp [BarrierState.retire, hne]
  next hp =>
    split at hs
    · cases hs
      rw [hp] at hahead
      exact { h with created := hahead }
    · cases hs
  next hp =>
    cases hs
    rw [hp] at hahead
    exact { h with created := hahead }

theorem Inv.step (h : w.Inv) (a : Act) (hs : w.step n a = some w') : w'.Inv := by
  cases a <;> simp only [Backend.step, Option.ite_none_right_eq_some,
    Option.ite_none_left_eq_some, Option.map_eq_some_iff, Option.some.injEq] at hs
  case kick q =>
    obtain ⟨⟨hp, -⟩, rfl⟩ := hs
    have hnow := h.created q
    rw [hp] at hnow
    exact { h with tags := List.forall_mem_cons.mpr ⟨hnow, h.tags⟩ }
  case admission tag b =>
    obtain ⟨-, r, hr, rfl⟩ := hs
    exact h.admitOp hr
  case drop t =>
    obtain ⟨ht, st, hst, rfl⟩ := hs
    obtain ⟨st', hst', hinv⟩ := h.drop ht
    cases hst.symm.trans hst'
    exact hinv
  case enter =>
    subst hs
    exact { h with }
  case leave =>
    obtain ⟨-, rfl⟩ := hs
    exact { h with }
  case retire queue =>
    obtain ⟨hp, rfl⟩ := hs
    refine { h with created := fun q => Nat.le_succ_of_le ?_ }
    simpa [hp] using h.created q
  case proceed => exact h.proceed hs

/-- A write still running when an operation is admitted was admitted after
the retirement that created the operation's generation. The counters are the
numbers of running writes and no drop underflows. A retirement only ever
waits for guest-memory sections, whatever runs on the disk. -/
theorem barrier_orders (n : Nat) (acts : List Act) (w : Backend)
    (h : Conc.run (step n) new acts = some w) :
    (∀ x ∈ w.tags, ∀ b r, w.admitOp x.1 b = some r →
      ∀ t ∈ w.running, t.writes = true → x.2 ≤ t.epoch) ∧
    w.barrier.liveWrites = writesOf w.running (· = w.barrier.epoch) ∧
    w.barrier.staleWrites = writesOf w.running (· < w.barrier.epoch) ∧
    (∀ t ∈ w.running, (w.barrier.drop t).isSome) ∧
    (w.phase ≠ .idle → w.proceed = none →
      w.phase = .draining ∧ 0 < w.sections) := by
  have hinv : w.Inv := Conc.run_inv (fun _ a _ hs => hs.step a) h
    ⟨by simp [new], rfl, rfl, by simp [new], fun _ => Nat.le_refl _⟩
  refine ⟨fun x hx b r hr t ht hw => ?_, hinv.live, hinv.stale, fun t ht => ?_,
    fun hp hnone => ?_⟩
  · obtain ⟨hzero, -⟩ := admitOp_eq_some hr
    rw [hinv.stale] at hzero
    have hlt := List.countP_eq_zero.mp hzero t ht
    simp only [hw, Bool.true_and, decide_eq_true_eq, not_lt] at hlt
    exact Nat.le_trans (hinv.tags x hx) hlt
  · obtain ⟨st, hst, -⟩ := hinv.drop ht
    simp [hst]
  · unfold Backend.proceed at hnone
    split at hnone <;> simp_all
    omega

/-- A write of one driver, a reset, and a write of the next. -/
def twoDrivers : List Act :=
  [.kick 0, .admission ⟨0, 0⟩ true, .retire none, .proceed, .proceed, .proceed,
    .proceed, .kick 0, .drop ⟨0, true⟩, .admission ⟨0, 1⟩ true]

theorem barrier_orders_two_drivers :
    ∃ w, Conc.run (step 1) new twoDrivers = some w ∧
      (w.admitOp ⟨0, 1⟩ false).isSome ∧ w.running = [⟨1, true⟩] ∧
      ∀ t ∈ w.running, t.writes = true → 1 ≤ t.epoch :=
  ⟨_, rfl, rfl, rfl, (barrier_orders 1 twoDrivers _ rfl).1 (⟨0, 1⟩, 1)
    (by decide) false _ rfl⟩

/-- A section inside holds a retirement up. -/
theorem retirement_waits : ∃ acts w, Conc.run (step 1) new acts = some w ∧
    w.phase ≠ .idle ∧ w.proceed = none :=
  ⟨[.enter, .retire none, .proceed, .proceed], _, rfl, by decide, rfl⟩

-- ==== what an admission waits for

theorem Inv.waits_iff (h : w.Inv) (q : Nat) (b : Bool) :
    w.admitOp ⟨q, w.generations q⟩ b = none ↔
      ∃ t ∈ w.running, t.writes = true ∧ t.epoch < w.barrier.epoch := by
  have hstale : w.barrier.staleWrites ≠ 0 ↔ 0 < writesOf w.running (· < w.barrier.epoch) := by
    rw [← h.stale, Nat.pos_iff_ne_zero]
  simpa [Backend.admitOp, BarrierState.admitOp, writesOf, List.countP_pos_iff] using hstale

/-- The running operations end in any order. -/
theorem Inv.drops (h : w.Inv) {ts : List Ticket} (hts : ts.Perm w.running) :
    ∃ w', Conc.run (Backend.step n) w (ts.map .drop) = some w' ∧ w'.Inv ∧ w'.running = [] ∧
      w'.generations = w.generations := by
  induction ts generalizing w with
  | nil => exact ⟨w, rfl, h, List.nil_perm.mp hts, rfl⟩
  | cons t ts ih =>
    have ht : t ∈ w.running := hts.subset List.mem_cons_self
    obtain ⟨st, hst, hinv⟩ := h.drop ht
    obtain ⟨w', hrun, hw'⟩ := ih hinv (List.cons_perm_iff_perm_erase.mp hts).2
    refine ⟨w', ?_, hw'⟩
    simpa [Conc.run, Backend.step, ht, hst] using hrun

/-- An admission under a current generation waits exactly while a write of an
earlier epoch runs. The workers alone open it again: their operations end in
any order, and then every current generation is admitted. -/
theorem admission_waits (n : Nat) (acts : List Act) (w : Backend)
    (h : Conc.run (step n) new acts = some w) :
    (∀ q b, w.admitOp ⟨q, w.generations q⟩ b = none ↔
      ∃ t ∈ w.running, t.writes = true ∧ t.epoch < w.barrier.epoch) ∧
    ∀ ts : List Ticket, ts.Perm w.running → ∃ w', Conc.run (step n) w (ts.map .drop) = some w' ∧
      ∀ q b, (w'.admitOp ⟨q, w.generations q⟩ b).isSome := by
  have hinv : w.Inv := Conc.run_inv (fun _ a _ hs => hs.step a) h
    ⟨by simp [new], rfl, rfl, by simp [new], fun _ => Nat.le_refl _⟩
  refine ⟨hinv.waits_iff, fun ts hts => ?_⟩
  obtain ⟨w', hrun, hinv', hnone, hgen⟩ := hinv.drops hts
  refine ⟨w', hrun, fun q b => ?_⟩
  rw [Option.isSome_iff_ne_none, ← hgen, Ne, hinv'.waits_iff, hnone]
  exact fun ⟨_, ht, _⟩ => nomatch ht

theorem admission_waits_next_driver : ∃ w, Conc.run (step 1) new (twoDrivers.take 8) = some w ∧
    w.admitOp ⟨0, 1⟩ true = none ∧
    ∃ w', Conc.run (step 1) w [.drop ⟨0, true⟩] = some w' ∧ (w'.admitOp ⟨0, 1⟩ true).isSome := by
  obtain ⟨hwait, hopen⟩ := admission_waits 1 (twoDrivers.take 8) _ rfl
  obtain ⟨w', hrun, hadmit⟩ := hopen [⟨0, true⟩] (.refl _)
  exact ⟨_, rfl, (hwait 0 true).mpr (by decide), w', hrun, hadmit 0 true⟩

end Backend

end Rshyve.Virtio.Blk
