/-
# Programmed, refused and enabled queues

A driver programs the rings of a queue through QUEUE_PFN or QUEUE_ENABLE;
either way the addresses are checked against guest memory and a queue they
fail on loses its rings. The legacy face also takes the enable flag back.
The modern one does not: `refused_stays_enabled` is a driver that enables a
queue and then enables it again at an address outside guest memory, which
leaves the queue flagged enabled and without rings.

`QueueStep` says what an input can do to one queue: leave its rings alone,
take them away, or give it rings that passed. Under `reenablesValid`, the
condition that a queue already flagged enabled is only enabled again at
addresses that pass, every enabled queue runs the rings of its last attempt
and a refused queue is dead until it is programmed again
(`queues_programmed`).
-/
import Rshyve.Virtio.Proofs.PciFeatures

namespace Rshyve.Virtio.Pci

open Function

variable {n : Nat}

-- ==== the attempts

/-- The attempts to program one queue, in order. -/
def attemptsOf (idx : Fin n) (log : List (Event n)) : List (Attempt n) :=
  log.filterMap fun
    | .programmed a => if a.queue = idx then some a else none
    | _ => none

/-- The last attempt to program a queue. -/
def lastAttempt (idx : Fin n) (log : List (Event n)) : Option (Attempt n) :=
  (attemptsOf idx log).getLast?

theorem attemptsOf_append (idx : Fin n) (l l' : List (Event n)) :
    attemptsOf idx (l ++ l') = attemptsOf idx l ++ attemptsOf idx l' :=
  List.filterMap_append

theorem attemptsOf_programmed (a : Attempt n) (l : List (Event n)) :
    attemptsOf a.queue (.programmed a :: l) = a :: attemptsOf a.queue l := by
  unfold attemptsOf
  rw [List.filterMap_cons_some]
  simp

variable {idx : Fin n} {u : Transport n}

theorem attemptsOf_other {a : Attempt n} (h : a.queue ≠ idx) (l : List (Event n)) :
    attemptsOf idx (.programmed a :: l) = attemptsOf idx l := by
  unfold attemptsOf
  rw [List.filterMap_cons_none]
  simp [h]

theorem attemptsOf_quiet {e : Event n} (h : e.quiet = true) (idx : Fin n)
    (l : List (Event n)) : attemptsOf idx (l ++ [e]) = attemptsOf idx l := by
  rw [attemptsOf_append]
  cases e with
  | programmed a => cases h
  | notifyQueue i => cases h
  | _ => exact List.append_nil _

/-- The rings of an attempt that passed lie in guest memory. -/
theorem Attempt.ringsIn {a : Attempt n} (h : a.passed = true) : a.rings.RingsIn a.mem := by
  apply VirtQueue.validateAddrs_eq_ok.1
  unfold Attempt.passed at h
  cases hv : a.rings.validateAddrs a.mem with
  | error e => rw [hv] at h; cases h
  | ok u => rfl

/-- The queue runs at the addresses and the size of these rings. -/
structure SameRings (q q' : VirtQueue) : Prop where
  desc : q'.descAddr = q.descAddr
  avail : q'.availAddr = q.availAddr
  used : q'.usedAddr = q.usedAddr
  size : q'.size = q.size

theorem SameRings.refl (q : VirtQueue) : SameRings q q := ⟨rfl, rfl, rfl, rfl⟩

variable {q q' : VirtQueue}

theorem SameRings.trans {q'' : VirtQueue} (h : SameRings q q')
    (h' : SameRings q' q'') : SameRings q q'' :=
  ⟨h'.desc.trans h.desc, h'.avail.trans h.avail, h'.used.trans h.used, h'.size.trans h.size⟩

theorem SameRings.isConfigured (h : SameRings q q') : q'.isConfigured = q.isConfigured := by
  unfold VirtQueue.isConfigured
  rw [h.desc]

namespace Transport

-- ==== the condition

/-- A queue that is flagged enabled is only enabled again at addresses that
pass the check. -/
def reenablesValid (t : Transport n) : Input n → Bool
  | .modern offset val _ =>
    t.vs.resetting || match ModernReg.decode offset, t.vs.selected with
      | .common .queueEnable, some idx =>
        val != 1 || !t.vs.queueEnabled idx
          || ((t.addressed idx).validateAddrs t.mem).isOk
      | _, _ => true
  | _ => true

-- ==== what an input can do

/-- What an input does to one queue, next to the attempts it judged on it:
its rings stay, or it has none afterwards, or it has the rings of the one
attempt, which passed. `ok` stands for the condition the input passes. -/
inductive QueueEffect (ok : Prop) (t t' : Transport n) (idx : Fin n)
    (attempts : List (Attempt n)) : Prop where
  | kept (h : SameRings (t.vs.queues idx) (t'.vs.queues idx))
      (he : t'.vs.queueEnabled idx = true → t.vs.queueEnabled idx = true)
      (ha : attempts = [])
  | removed (h : t'.configured idx = false)
      (he : ok → (t.vs.queueEnabled idx = true → t.configured idx = true) →
        t'.vs.queueEnabled idx = false)
  | accepted (a : Attempt n) (h : SameRings a.rings (t'.vs.queues idx))
      (hp : a.passed = true) (ha : attempts = [a])

/-- What an input does: its effect on each queue, and a kick that reaches
the backend for a queue with rings. -/
structure QueueStep (ok : Prop) (t t' : Transport n)
    (events : List (Event n)) : Prop where
  log : t'.log = t.log ++ events
  effect : ∀ idx, QueueEffect ok t t' idx (attemptsOf idx events)
  kick : ∀ k idx, events[k]? = some (.notifyQueue idx) → k = 0 ∧ t.configured idx = true

variable {ok : Prop} {t t' : Transport n}

variable {e : Event n}

theorem kick_single (he : ∀ idx, e ≠ .notifyQueue idx) (k : Nat)
    (idx : Fin n) (h : [e][k]? = some (.notifyQueue idx)) :
    k = 0 ∧ t.configured idx = true := by
  cases k with
  | zero => exact absurd (Option.some.inj h) (he idx)
  | succ k => cases h

/-- Inputs that leave rings and flags alone and say nothing of note. -/
theorem QueueStep.silent (hq : ∀ idx, SameRings (t.vs.queues idx) (t'.vs.queues idx))
    (he : ∀ idx, t'.vs.queueEnabled idx = true → t.vs.queueEnabled idx = true)
    (hl : t'.log = t.log) : QueueStep ok t t' [] where
  log := by rw [hl, List.append_nil]
  effect idx := .kept (hq idx) (he idx) rfl
  kick k idx h := by
    rw [List.getElem?_nil] at h
    cases h

theorem QueueStep.refl (t : Transport n) : QueueStep ok t t [] :=
  .silent (fun _ => .refl _) (fun _ => id) rfl

variable {events : List (Event n)}

/-- One more quiet event, with rings and flags as they were. -/
theorem QueueStep.quiet {u v : Transport n} (h : QueueStep ok t u events) (hq : e.quiet = true)
    (hv : v.vs.queues = u.vs.queues)
    (he : v.vs.queueEnabled = u.vs.queueEnabled) (hl : v.log = u.log ++ [e]) :
    QueueStep ok t v (events ++ [e]) where
  log := by rw [hl, h.log, List.append_assoc]
  effect idx := by
    rw [attemptsOf_quiet hq]
    cases h.effect idx with
    | kept hk hf ha =>
      refine .kept ?_ ?_ ha
      · rw [hv]; exact hk
      · rw [he]; exact hf
    | removed hr hf =>
      refine .removed ?_ ?_
      · unfold configured at *
        rw [hv]
        exact hr
      · rw [he]; exact hf
    | accepted a hs hp ha =>
      refine .accepted a ?_ hp ha
      rw [hv]
      exact hs
  kick k idx hk := by
    rw [List.getElem?_append] at hk
    split at hk
    · exact h.kick k idx hk
    · rename_i hlen
      cases hd : k - events.length with
      | zero =>
        rw [hd] at hk
        cases hk
        cases hq
      | succ m => rw [hd] at hk; cases hk

/-- Reporting that a reset is needed changes no queue. -/
theorem QueueStep.setNeedsReset (h : QueueStep ok t u events) :
    ∃ events', QueueStep ok t u.setNeedsReset events' := by
  unfold Transport.setNeedsReset
  split
  · exact ⟨events, h⟩
  · exact ⟨_, h.quiet (e := .configInterrupt) rfl rfl rfl rfl⟩

theorem QueueStep.note (h : QueueStep ok t u events)
    (hq : e.quiet = true) : ∃ events', QueueStep ok t (u.note e) events' :=
  ⟨_, h.quiet hq rfl rfl rfl⟩

-- ==== one queue programmed

variable {q : VirtQueue}

/-- A change of one queue and its flag leaves the other queues alone. -/
theorem effect_other {idx j : Fin n} (hj : j ≠ idx) (hq : t'.vs.queues = update t.vs.queues idx q)
    (he : t'.vs.queueEnabled j = t.vs.queueEnabled j) :
    QueueEffect ok t t' j [] := by
  refine .kept ?_ ?_ rfl
  · rw [hq, update_of_ne hj]
    exact .refl _
  · rw [he]
    exact id

theorem configured_update (hq : t'.vs.queues = update t.vs.queues idx q) :
    t'.configured idx = q.isConfigured := by
  unfold configured
  rw [hq, update_self]

/-- A queue loses its rings, with no attempt judged. -/
theorem queueStep_unset (hq : t'.vs.queues = update t.vs.queues idx q)
    (he : ∀ j, j ≠ idx → t'.vs.queueEnabled j = t.vs.queueEnabled j)
    (hc : q.isConfigured = false)
    (hoff : ok → (t.vs.queueEnabled idx = true → t.configured idx = true) →
      t'.vs.queueEnabled idx = false) (hl : t'.log = t.log) :
    QueueStep ok t t' [] where
  log := by rw [hl, List.append_nil]
  effect j := by
    by_cases hj : j = idx
    · subst hj
      exact .removed ((configured_update hq).trans hc) hoff
    · exact effect_other hj hq (he j hj)
  kick k i h := by
    rw [List.getElem?_nil] at h
    cases h

/-- An attempt is judged: the queue has its rings if it passed, and none
otherwise. -/
theorem queueStep_programmed {rings : VirtQueue} {mem : Mem.AddressSpace}
    (hq : t'.vs.queues = update t.vs.queues idx q)
    (he : ∀ j, j ≠ idx → t'.vs.queueEnabled j = t.vs.queueEnabled j)
    (hl : t'.log = t.log ++ [.programmed ⟨idx, rings, mem⟩])
    (hjudge : (SameRings rings q ∧ (rings.validateAddrs mem).isOk = true) ∨
      (q.isConfigured = false ∧ (ok → (t.vs.queueEnabled idx = true →
      t.configured idx = true) → t'.vs.queueEnabled idx = false))) :
    QueueStep ok t t' [.programmed ⟨idx, rings, mem⟩] where
  log := hl
  effect j := by
    by_cases hj : j = idx
    · subst hj
      rcases hjudge with ⟨hs, hp⟩ | ⟨hc, hoff⟩
      · refine .accepted ⟨j, rings, mem⟩ ?_ hp (attemptsOf_programmed ⟨j, rings, mem⟩ [])
        rw [hq, update_self]
        exact hs
      · exact .removed ((configured_update hq).trans hc) hoff
    · rw [attemptsOf_other (Ne.symm hj)]
      exact effect_other hj hq (he j hj)
  kick := kick_single nofun

-- ==== every change

/-- Features that are turned on or off move no ring. -/
theorem queueStep_setFeatures (features word : BitVec 64) (status : BitVec 8) : QueueStep ok t
      { t with
        vs := { t.vs with
          guestFeatures := features, status := status }.applyFeatures
        log := t.log ++ [.setFeatures word] } [.setFeatures word] where
  log := rfl
  effect _ := .kept ⟨rfl, rfl, rfl, rfl⟩ id rfl
  kick := kick_single nofun

theorem queueStep_kicked {drain : Fin n → VirtQueue.Drain} (hc : t.configured idx = true) :
    QueueStep ok t (t.kicked idx drain) [.notifyQueue idx] where
  log := rfl
  effect j := by
    refine .kept ?_ id rfl
    show SameRings _ ((t.vs.queues j).drained t.mem (drain j))
    obtain ⟨_, _, _, hd⟩ := (t.vs.queues j).drained_eq t.mem (drain j)
    rw [hd]
    exact ⟨rfl, rfl, rfl, rfl⟩
  kick k j hk := by
    cases k with
    | zero => cases hk; exact ⟨rfl, hc⟩
    | succ k => cases hk

/-- A published reset leaves no queue with rings. -/
theorem queueStep_finishReset : QueueStep ok t t.finishReset [.reset] where
  log := rfl
  effect _ := .removed rfl fun _ _ => rfl
  kick := kick_single nofun

theorem queueStep_step {dev : BitVec 64} {i : Input n} (h : t.step dev i = some t') :
    ∃ events, QueueStep (t.reenablesValid i = true) t t' events := by
  cases change_step h with
  | plain hp =>
    rcases hp.log with hl | ⟨e, he, hl⟩
    · refine ⟨[], .silent (fun idx => ?_) (fun idx => ?_) hl⟩
      · rw [hp.queues]
        exact .refl _
      · rw [hp.enabled]
        exact id
    · exact ⟨_, (QueueStep.refl t).quiet he hp.queues hp.enabled hl⟩
  | needsReset => exact (QueueStep.refl t).setNeedsReset
  | closed => exact ⟨[], .silent (fun _ => .refl _) (fun _ h => nomatch h) rfl⟩
  | finished _ => exact ⟨_, queueStep_finishReset⟩
  | status new _ => exact ⟨[], .silent (fun _ => .refl _) (fun _ => id) rfl⟩
  | negotiated val _ _ _ =>
    exact ⟨_, queueStep_setFeatures t.vs.guestFeatures _ _⟩
  | guestFeatures _ _ word _ _ _ =>
    exact ⟨_, queueStep_setFeatures word word t.vs.status⟩
  | driverFeature _ word _ _ _ =>
    exact ⟨[], .silent (fun _ => .refl _) (fun _ => id) rfl⟩
  | kicked idx drain hc ht =>
    rcases ht with rfl | rfl
    · exact ⟨_, queueStep_kicked hc⟩
    · exact (queueStep_kicked hc).setNeedsReset
  | resized idx q size hq =>
    -- only a queue without rings takes a size
    obtain ⟨-, hc, rfl⟩ := VirtQueue.setSize_eq_ok.1 hq
    refine ⟨[], queueStep_unset rfl (fun _ _ => rfl) hc ?_ rfl⟩
    intro _ hinv
    rw [← Bool.not_eq_true]
    intro hen
    rw [show t.configured idx = false from hc] at hinv
    cases hinv hen
  | unset idx q _ hc =>
    have hstep : QueueStep (t.reenablesValid i = true) t
        ((t.setQueue idx q).setEnabled idx false) [] :=
      queueStep_unset rfl (fun _ hj => update_of_ne hj _ _) hc (fun _ _ => update_self _ _ _) rfl
    exact hstep.note rfl
  | accepted idx q _ hok =>
    have hstep : QueueStep (t.reenablesValid i = true) t
        (((t.note (.programmed ⟨idx, q, t.mem⟩)).setQueue idx q).setEnabled idx
          true) [.programmed ⟨idx, q, t.mem⟩] := by
      refine queueStep_programmed rfl (fun _ hj => update_of_ne hj _ _) rfl (.inl ⟨.refl _, ?_⟩)
      rw [hok]
      rfl
    exact hstep.note rfl
  | refused idx q _ =>
    apply QueueStep.setNeedsReset
    exact queueStep_programmed rfl (fun _ hj => update_of_ne hj _ _) rfl
      (.inr ⟨rfl, fun _ _ => update_self _ _ _⟩)
  | refusedModern idx hsel hbad hi =>
    apply QueueStep.setNeedsReset
    refine queueStep_programmed rfl (fun _ _ => rfl) rfl (.inr ⟨rfl, fun hok _ => ?_⟩)
    -- harmless only for a queue that was not flagged
    cases i with
    | modern offset val drain =>
      obtain ⟨hreset, hreg, rfl⟩ := hi
      show t.vs.queueEnabled idx = false
      simpa [reenablesValid, hreset, hreg, hsel, hbad] using hok
    | _ => exact hi.2.elim

-- ==== the invariant

/-- Queues, flags and attempts in step with each other: a queue with rings
has those of its last attempt, which passed; an enabled queue has rings;
and no kick ever reached the backend for a queue whose last attempt had
been refused. -/
structure Programmed (t : Transport n) : Prop where
  rings : ∀ idx, t.configured idx = true → ∃ a, lastAttempt idx t.log = some a ∧ a.passed = true ∧
      SameRings a.rings (t.vs.queues idx)
  enabled : ∀ idx, t.vs.queueEnabled idx = true → t.configured idx = true
  kicked : ∀ k idx, t.log[k]? = some (.notifyQueue idx) →
    ∃ a, lastAttempt idx (t.log.take k) = some a ∧ a.passed = true

theorem programmed_new (sh : Shape) (mem : Mem.AddressSpace) : Programmed (.new sh mem) where
  rings idx h := by cases h
  enabled idx h := by cases h
  kicked k idx h := by cases h

theorem Programmed.step (h : Programmed t) (hs : QueueStep ok t t' events)
    (hok : ok) : Programmed t' where
  rings idx hc := by
    unfold lastAttempt
    rw [hs.log, attemptsOf_append]
    cases hs.effect idx with
    | kept hk _ ha =>
      have hct : t.configured idx = true := by
        rw [← hc]
        exact hk.isConfigured.symm
      obtain ⟨a, hl, hp, hr⟩ := h.rings idx hct
      refine ⟨a, ?_, hp, hr.trans hk⟩
      rw [ha, List.append_nil]
      exact hl
    | removed hr _ =>
      rw [hr] at hc
      cases hc
    | accepted a hr hp ha =>
      refine ⟨a, ?_, hp, hr⟩
      rw [ha, List.getLast?_append]
      rfl
  enabled idx he := by
    cases hs.effect idx with
    | kept hk hf _ =>
      have hct := h.enabled idx (hf he)
      rw [← hct]
      exact hk.isConfigured
    | removed hr hf =>
      rw [hf hok (h.enabled idx)] at he
      cases he
    | accepted a hr hp _ =>
      rw [← (Attempt.ringsIn hp).isConfigured]
      exact hr.isConfigured
  kicked k idx hk := by
    rw [hs.log] at hk ⊢
    rw [List.getElem?_append] at hk
    split at hk
    · rename_i hlt
      rw [List.take_append_of_le_length (Nat.le_of_lt hlt)]
      exact h.kicked k idx hk
    · rename_i hge
      obtain ⟨hzero, hcfg⟩ := hs.kick _ idx hk
      have hk' : k = t.log.length := by omega
      rw [hk', List.take_left']
      · obtain ⟨a, hl, hp, _⟩ := h.rings idx hcfg
        exact ⟨a, hl, hp⟩
      · rfl

-- ==== runs

theorem Programmed.runs {dev : BitVec 64} {inputs : List (Input n)} (h : Programmed t)
    (hr : Transport.runs dev reenablesValid t inputs = some u) :
    Programmed u := by
  refine Conc.run_inv ?_ hr h
  intro s i s' hs hstep
  obtain ⟨hok, hstep⟩ := Conc.guarded_eq_some.1 hstep
  obtain ⟨events, hq⟩ := queueStep_step hstep
  exact hs.step hq hok

/-- In every run in which a flagged queue is only enabled again at addresses
that pass: an enabled queue has rings, those of its last attempt, which lay
in guest memory; a queue whose last attempt was refused has no rings and is
not enabled; and no kick reached the backend for a queue that had last been
refused. -/
theorem queues_programmed (sh : Shape) (mem : Mem.AddressSpace)
    (inputs : List (Input sh.numQueues)) (t : Transport sh.numQueues)
    (h : runs sh.deviceFeatures reenablesValid (.new sh mem) inputs = some t)
    (idx : Fin sh.numQueues) :
    (t.vs.queueEnabled idx = true → t.configured idx = true ∧
      ∃ a, lastAttempt idx t.log = some a ∧ a.rings.RingsIn a.mem ∧
        SameRings a.rings (t.vs.queues idx)) ∧
    (∀ a, lastAttempt idx t.log = some a → a.passed = false →
      t.vs.queueEnabled idx = false ∧ t.configured idx = false) ∧
    (∀ k a, t.log[k]? = some (.notifyQueue idx) →
      lastAttempt idx (t.log.take k) = some a → a.passed = true) := by
  have hinv : Programmed t := (programmed_new sh mem).runs h
  have hdead : ∀ a, lastAttempt idx t.log = some a → a.passed = false →
      t.configured idx = false := by
    intro a ha hp
    rw [← Bool.not_eq_true]
    intro hc
    obtain ⟨b, hb, hpb, _⟩ := hinv.rings idx hc
    rw [ha] at hb
    cases hb
    rw [hp] at hpb
    cases hpb
  refine ⟨?_, ?_, ?_⟩
  · intro he
    have hc := hinv.enabled idx he
    obtain ⟨a, ha, hp, hr⟩ := hinv.rings idx hc
    exact ⟨hc, a, ha, Attempt.ringsIn hp, hr⟩
  · intro a ha hp
    refine ⟨?_, hdead a ha hp⟩
    rw [← Bool.not_eq_true]
    intro he
    have hc := hinv.enabled idx he
    rw [hdead a ha hp] at hc
    cases hc
  · intro k a hk ha
    obtain ⟨b, hb, hp⟩ := hinv.kicked k idx hk
    rw [ha] at hb
    cases hb
    exact hp

/-- The driver of `modernDriver` ends with its queue enabled. -/
theorem queues_programmed_modernDriver :
    ∃ t : Transport 1,
      runs fRingEventIdx reenablesValid (.new oneQueue oneMegabyte)
        modernDriver = some t ∧
      t.vs.queueEnabled 0 = true ∧ t.configured 0 = true ∧
      ∃ a, lastAttempt 0 t.log = some a ∧ a.rings.RingsIn a.mem ∧
        SameRings a.rings (t.vs.queues 0) := by
  obtain ⟨t, ht, he⟩ : ∃ t, @runs 1 fRingEventIdx reenablesValid
      (.new oneQueue oneMegabyte) modernDriver = some t ∧
      t.vs.queueEnabled 0 = true := by
    decide
  exact ⟨t, ht, he,
    (queues_programmed oneQueue oneMegabyte modernDriver t ht (0 : Fin 1)).1
      he⟩

/-- The driver goes on to move the descriptor table past the end of guest
memory and to enable the queue again: the attempt is refused, and the queue
is left flagged enabled, without rings. -/
theorem refused_stays_enabled :
    ∃ t : Transport 1,
      Conc.run (step fRingEventIdx) (.new oneQueue oneMegabyte)
        (modernDriver ++ commonWrites [(0x20, 0x200000), (0x1C, 1)])
        = some t ∧
      (lastAttempt 0 t.log).map (·.passed) = some false ∧
      t.vs.queueEnabled 0 = true ∧ t.configured 0 = false := by
  have hrun : ∃ t, Conc.run (@step 1 fRingEventIdx)
      (.new oneQueue oneMegabyte)
      (modernDriver ++ commonWrites [(0x20, 0x200000), (0x1C, 1)]) = some t ∧
      (lastAttempt 0 t.log).map (·.passed) = some false ∧
      t.vs.queueEnabled 0 = true ∧ t.configured 0 = false := by
    decide
  exact hrun

end Transport

end Rshyve.Virtio.Pci
