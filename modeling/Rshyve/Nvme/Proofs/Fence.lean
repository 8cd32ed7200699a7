/-
# A fence that missed its deadline

`fail_fence` marks a controller whose workers did not stop in time. A worker
may still be in a transfer, so no queue may be created, no command fetched
and none sent from then on.

A reset and a shutdown take the queues away before the fence, and `enable`
looks at the mark. If no other call overlaps that, the controller has no
queue when it is marked, and gets none: the only way to a queue is an admin
command, and there is no admin queue to fetch one from (`nothing_admitted`).
A Delete Queue leaves every other queue in place, and nothing but `enable`
looks at the mark: `admitted_after_delete` is a run that goes on to create a
queue.

# Places

What a thread may do depends on whether it has the state lock, and on the
state it found there. A vCPU that fetched from a live state has requests to
send after it has dropped the lock (`owing`). One that has taken the queues
away (`down`) is alone in a call until its next section is over.
-/
import Rshyve.Nvme.Machine

namespace Rshyve.Nvme

open Conc Discipline Function
open Keeps (seq)

-- ==== places

/-- There is no queue. -/
def NoQueues (st : NvmeState) : Prop :=
  (st.adminSq = none ∧ st.adminCq = none) ∧
    ∀ i, st.ioSqs i = none ∧ st.ioCqs i = none

instance : DecidablePred NoQueues := fun _ =>
  inferInstanceAs (Decidable (_ ∧ _))

variable {st : NvmeState}

theorem NoQueues.setIoCq {i : Fin maxIoQueues} {cq : Option CompQueue}
    (h : NoQueues st) (hcq : cq = none) :
    NoQueues { st with ioCqs := update st.ioCqs i cq } := by
  refine ⟨h.1, fun j => ⟨(h.2 j).1, ?_⟩⟩
  by_cases hj : j = i
  · subst hj
    exact (update_self ..).trans hcq
  · exact (update_of_ne hj ..).trans (h.2 j).2

/-- What code that creates no queue makes of a state. -/
structure Mild (st st' : NvmeState) : Prop where
  mark : st'.fenceFailed = st.fenceFailed
  empty : NoQueues st → NoQueues st'

inductive Mode where
  /-- a vCPU between two calls -/
  | idle
  | away
  | owing
  /-- the queues are taken away, and the fence is on -/
  | down
  /-- with the state lock, the state that was found, and whether the thread
  was `down` before -/
  | locked (found : NvmeState) (back : Bool)

def Mode.isDown : Mode → Bool
  | .down => true
  | _ => false

structure Loc where
  vcpu : Bool
  mode : Mode

def Loc.Unlocked (l : Loc) : Prop := l.mode = .away ∨ l.mode = .owing

/-- From the section that took the queues away to the end of the next. -/
def Loc.Alone (l : Loc) : Prop :=
  l.mode = .down ∨ ∃ found, l.mode = .locked found true

/-- What a section makes of the state it found: a failed controller stays
without queues, and only a vCPU creates them. -/
structure Follows (vcpu : Bool) (found st : NvmeState) : Prop where
  mark : st.fenceFailed = found.fenceFailed
  failed : found.fenceFailed = true → NoQueues st
  empty : vcpu = false → NoQueues found → NoQueues st

/-- The steps that matter. Every other step is free to a thread in a call. -/
def fenceRules : Discipline Op Ans Loc where
  allow l
    | .unlock st note => ∃ found back, l.mode = .locked found back ∧
        (Follows l.vcpu found st ∨
          back = true ∧ NoQueues st ∧ st.fenceFailed = true) ∧
        (note = .down → NoQueues st)
    | .consume .. => ∃ found back, l.mode = .locked found back ∧
        found.fenceFailed = false
    | .send _ => l.vcpu = true ∧ l.mode = .owing
    | .begins => l.mode = .idle
    | .returns => l.Unlocked
    | _ => l.mode ≠ .idle
  can l
    | .lock, st => (st.fenceFailed = true → NoQueues st) ∧
        (l.mode = .down → NoQueues st)
    | .fenced held, _ => held = true
    | _, _ => True
  next l
    | .lock, st => { l with mode := .locked st l.mode.isDown }
    | .unlock st note, _ =>
      { l with mode := match note with
          | .down => .down
          | .plain => if st.fenceFailed then .away else .owing }
    | .begins, _ => { l with mode := .away }
    | .returns, _ => { l with mode := .idle }
    | _, _ => l

section

variable {R R' : Type} {J : Loc → Prop} {Q : Loc → R → Prop} {vcpu : Bool}
  {l : Loc} {st' : NvmeState}

/-- In a call, without the lock. -/
def Out (vcpu : Bool) (l : Loc) : Prop := l.Unlocked ∧ l.vcpu = vcpu

/-- The lock is held, with this state in hand. -/
def Has (vcpu : Bool) (st : NvmeState) (l : Loc) : Prop :=
  ∃ found back, l = ⟨vcpu, .locked found back⟩ ∧ Follows vcpu found st

theorem Out.ne_idle (l : Loc) (h : Out vcpu l) : l.mode ≠ .idle := by
  rcases h.1 with h | h <;> simp [h]

theorem Has.ne_idle (h : Has vcpu st l) : l.mode ≠ .idle := by
  obtain ⟨found, back, rfl, -⟩ := h
  nofun

theorem Has.mono (h : Has vcpu st l) (hst : Mild st st') : Has vcpu st' l := by
  obtain ⟨found, back, rfl, hf⟩ := h
  exact ⟨found, back, rfl, hst.mark.trans hf.mark,
    fun hm => hst.empty (hf.failed hm), fun hv hn => hst.empty (hf.empty hv hn)⟩

/-- A vCPU may do anything to a state that is not marked. -/
theorem Has.live (h : Has true st l) (hlive : st.fenceFailed = false)
    (hmark : st'.fenceFailed = false) : Has true st' l := by
  obtain ⟨found, back, rfl, hf⟩ := h
  have hfound := hf.mark.symm.trans hlive
  exact ⟨found, back, rfl, hmark.trans hfound.symm,
    fun hm => Bool.noConfusion (hm.symm.trans hfound), nofun⟩

/-- A state with queues is not marked. -/
theorem Has.unmarked (h : Has vcpu st l) (hsome : ¬ NoQueues st) :
    st.fenceFailed = false := by
  obtain ⟨found, back, rfl, hf⟩ := h
  exact Bool.eq_false_iff.mpr fun hm => hsome (hf.failed (hf.mark ▸ hm))

variable {f : NvmeState → Prog R}

theorem keeps_lock (hl : Out vcpu l)
    (hf : ∀ st l', Has vcpu st l' → fenceRules.Keeps (f st) Q l') :
    fenceRules.Keeps (step .lock >>= f) Q l := by
  refine seq ⟨hl.ne_idle, fun st hst => hf st _ ?_⟩
  obtain ⟨v, mode⟩ := l
  cases hl.2
  exact ⟨st, _, rfl, rfl, hst.1, fun _ h => h⟩

theorem keeps_unlock (h : Has vcpu st l) :
    fenceRules.Keeps (step (.unlock st .plain)) (fun l' _ => Out vcpu l') l := by
  obtain ⟨found, back, rfl, hf⟩ := h
  refine ⟨⟨found, back, rfl, .inl hf, nofun⟩, fun _ _ => ⟨?_, rfl⟩⟩
  show (if _ then Mode.away else _) = _ ∨ (if _ then Mode.away else _) = _
  split
  · exact .inl rfl
  · exact .inr rfl

theorem Has.release {p : Prog R} (h : Has vcpu st l)
    (hp : fenceRules.Stays (Out vcpu) p) :
    fenceRules.Keeps (step (.unlock st .plain) >>= fun _ => p)
      (fun l' _ => Out vcpu l') l :=
  (keeps_unlock h).comp fun l' _ hl' => hp l' hl'

theorem stays_lock (h : ∀ st l, Has vcpu st l →
      fenceRules.Keeps (f st) (fun l' _ => Out vcpu l') l) :
    fenceRules.Stays (Out vcpu) (step .lock >>= f) :=
  fun _ hl => keeps_lock hl h

/-- A section that computes on the state, and leaves mark and queues. -/
theorem stays_section {f : NvmeState → NvmeState} (h : ∀ st, Mild st (f st)) :
    fenceRules.Stays (Out vcpu)
      (step .lock >>= fun st => step (.unlock (f st) .plain)) :=
  stays_lock fun st _ hst => keeps_unlock (hst.mono (h st))

-- ==== free programs

/-- The operations a thread is free to issue in a call. -/
@[simp] def Op.Free : Op → Prop
  | .lock | .unlock .. | .consume .. | .send _ | .begins | .returns => False
  | _ => True

theorem next_free {o : Op} {a : Ans o} (h : o.Free) :
    fenceRules.next l o a = l := by
  cases o <;> first | rfl | cases h

/-- A program of free operations. -/
abbrev Free (p : Prog R) : Prop := Only Op.Free p fun _ => True

theorem stays_step (hJ : ∀ l, J l → l.mode ≠ .idle) (o : Op) (h : o.Free) :
    fenceRules.Stays J (step o) := by
  intro l hl
  cases o
  case lock | unlock | consume | send | begins | returns => cases h
  all_goals exact ⟨hJ l hl, fun _ _ => hl⟩

theorem stays_free {p : Prog R} (hp : Free p) :
    fenceRules.Stays (Out vcpu) p :=
  stays_only hp (stays_step Out.ne_idle)

theorem stays_then {o : Op} {k : Ans o → Prog R} (ho : o.Free)
    (hk : ∀ a, fenceRules.Stays (Out vcpu) (k a)) :
    fenceRules.Stays (Out vcpu) (step o >>= k) :=
  (stays_step Out.ne_idle o ho).seq hk

/-- A free program leaves a thread where it is. -/
theorem keeps_free {p : Prog R} {P : R → Prop} (hp : Only Op.Free p P)
    (hl : l.mode ≠ .idle) :
    fenceRules.Keeps p (fun l' r => l' = l ∧ P r) l :=
  keeps_only hp (stays_step fun _ h => h ▸ hl) rfl

theorem keeps_free_then {p : Prog R'} {f : R' → Prog R} {P : R' → Prop}
    (hp : Only Op.Free p P) (hl : l.mode ≠ .idle)
    (hf : ∀ r, P r → fenceRules.Keeps (f r) Q l) :
    fenceRules.Keeps (p >>= f) Q l := by
  refine (keeps_free hp hl).comp ?_
  rintro _ r ⟨rfl, hr⟩
  exact hf r hr

theorem free_isPaused : Free isPaused := by simp [isPaused]

theorem free_parkIfPaused : Free parkIfPaused := by
  simp [parkIfPaused, parkedLoop, isPaused]

theorem free_dropScope : Free dropScope := by simp [dropScope]

theorem free_fenceWorkers : Free fenceWorkers := by
  simp [fenceWorkers, waitQuiesced, quiesceLoop, dropScope]

theorem free_flushBacking : Free flushBacking := by
  simp [flushBacking, waitQuiesced, quiesceLoop, dropScope]

theorem free_readSqe (sq : SubQueue) : Free (readSqe sq) := by
  unfold readSqe
  split <;> simp

theorem free_processIoRequest (dev : Device) (req : IoRequest) :
    Free (processIoRequest dev req) := by
  simp [processIoRequest, Option.forall]

theorem free_queueBaseOk (base : BitVec 64) (entries entry : Nat) :
    Free (queueBaseOk base entries entry) := by
  simp [queueBaseOk]

def Unmoved (st : NvmeState) (out : AdminOutcome) : Prop :=
  out.st.fenceFailed = st.fenceFailed

@[simp] theorem unmoved_plain {status : BitVec 16} {cdw0 : BitVec 32} :
    Unmoved st (.plain st' status cdw0) ↔ st'.fenceFailed = st.fenceFailed :=
  Iff.rfl

/-- An admin command leaves the mark alone. -/
theorem unmoved_processAdminCmd (e : Sqe) :
    Only Op.Free (processAdminCmd st e) (Unmoved st) := by
  have hdata (refused : Option (BitVec 16)) :
      Only Op.Free (adminData st e refused) (Unmoved st) := by
    cases refused <;> simp [adminData]
  have hnewCq : Only Op.Free (adminCreateIoCq st e) (Unmoved st) := by
    unfold adminCreateIoCq
    split <;> simp [queueBaseOk, NvmeState.createIoCq]
  have hnewSq : Only Op.Free (adminCreateIoSq st e) (Unmoved st) := by
    unfold adminCreateIoSq
    split <;> simp [queueBaseOk, NvmeState.createIoSq]
  have hdelSq : Unmoved st (adminDeleteIoSq st e) := by
    unfold adminDeleteIoSq
    split <;> rfl
  have hdelCq : Unmoved st (adminDeleteIoCq st e) := by
    unfold adminDeleteIoCq
    split <;> rfl
  have hset : (adminSetFeatures st e.cdw10 e.cdw11).1.fenceFailed = st.fenceFailed := by
    unfold adminSetFeatures
    dsimp only
    split
    · rfl
    · split <;> rfl
  simp [processAdminCmd, hdata, hnewCq, hnewSq, hdelSq, hdelCq, hset]

/-- A queue that is not there stays away. -/
theorem none_postCompletion {cq : Option CompQueue} {cdw0 : BitVec 32}
    {sqid sqHead : Nat} {cid status : BitVec 16} :
    Only Op.Free (postCompletion cq cdw0 sqid sqHead cid status)
      fun r => cq = none → r.1 = none := by
  unfold postCompletion
  cases cq with
  | none => simp
  | some cq =>
    dsimp only
    split
    · simp
    · split <;> simp

/-- The end of a completion: the queue is put back, and the controller may
have become fatal. -/
theorem Mild.posted {posted : Bool} (h : Mild st st') :
    Mild st (if posted then st' else st'.setFatal) := by
  split
  · exact h
  · exact ⟨h.mark, h.empty⟩

-- ==== the worker

theorem stays_completeIo (req : IoRequest) (status : BitVec 16) :
    fenceRules.Stays (Out vcpu) (completeIo req status) := by
  refine stays_lock fun st l hst => ?_
  split
  · split
    · exact keeps_unlock hst
    next i _ =>
      refine keeps_free_then none_postCompletion hst.ne_idle fun r hr => ?_
      refine keeps_unlock (hst.mono (Mild.posted ⟨rfl, fun hn => ?_⟩))
      exact hn.setIoCq (hr (hn.2 i).2)
  · exact keeps_unlock hst

theorem stays_runRequest (dev : Device) (req : IoRequest) :
    fenceRules.Stays (Out vcpu) (runRequest dev req) := by
  refine (stays_free free_parkIfPaused).seq fun _ => ?_
  refine stays_lock fun st l hst => hst.release (stays_ite ?_ stays_ret)
  exact (stays_free (free_processIoRequest dev req)).seq fun status =>
    stays_completeIo req status

theorem stays_ioWorker (dev : Device) :
    fenceRules.Stays (Out vcpu) (ioWorker dev) := by
  refine stays_loop fun _ => ?_
  refine (stays_free free_parkIfPaused).seq fun _ => ?_
  refine stays_then trivial fun _ => ?_
  refine (stays_free free_isPaused).seq fun paused => ?_
  cases paused with
  | true => exact stays_then trivial fun _ => stays_ret
  | false =>
    refine stays_then trivial fun got => stays_then trivial fun _ => ?_
    cases got with
    | none => exact stays_ret
    | some req => exact (stays_runRequest dev req).seq fun _ => stays_ret

-- ==== the migration

theorem stays_migration : fenceRules.Stays (Out vcpu) migration := by
  have hresume : Free (do
      resume
      pure (.inl () : Unit ⊕ Unit)) := by simp [resume]
  have hwait : Free waitAllQuiesced := by simp [waitAllQuiesced]
  refine stays_loop fun _ => stays_then trivial fun _ => ?_
  refine (stays_free hwait).seq fun held => ?_
  cases held with
  | false => exact stays_free hresume
  | true =>
    refine stays_then trivial fun _ => ?_
    refine (stays_free free_flushBacking).seq fun flushed => ?_
    have hback : Free (do
        step .resumeVcpus
        resume
        pure (.inl () : Unit ⊕ Unit)) := by simp [resume]
    cases flushed with
    | false => exact stays_free hback
    | true =>
      refine Stays.seq ?_ fun _ => stays_free hback
      refine Stays.seq ?_ fun _ => stays_ret
      exact stays_lock fun st _ hst => hst.release stays_ret

end

-- ==== the vCPUs

section

variable {R : Type} {Q : Loc → R → Prop} {l : Loc} {p : Prog R}

/-- A command is fetched from a queue, so not on a marked controller. -/
theorem Has.keeps_consume {vcpu : Bool} {qid : Nat} {e : Sqe}
    (h : Has vcpu st l) (hsome : ¬ NoQueues st)
    (hp : fenceRules.Keeps p Q l) :
    fenceRules.Keeps (step (.consume qid e) >>= fun _ => p) Q l := by
  have hlive := h.unmarked hsome
  obtain ⟨found, back, rfl, hf⟩ := h
  exact seq ⟨⟨found, back, rfl, hf.mark.symm.trans hlive⟩, fun _ _ => hp⟩

theorem keeps_sendAll (rs : List IoRequest) :
    fenceRules.Keeps (sendAll rs) (fun l _ => Out true l) ⟨true, .owing⟩ := by
  induction rs with
  | nil => exact ⟨.inr rfl, rfl⟩
  | cons r rs ih => exact seq ⟨⟨rfl, rfl⟩, fun _ _ => ih⟩

theorem stays_ioSqDoorbell (qid newTail : Nat) :
    fenceRules.Stays (Out true) (ioSqDoorbell qid newTail) := by
  refine stays_lock fun st l hst => ?_
  split
  · exact keeps_unlock hst
  next idx sq cqInstance hsub =>
    have hsome : ¬ NoQueues st := fun hn => by
      unfold submission at hsub
      cases hi : ioQueueIndex qid with
      | none => simp [hi] at hsub
      | some i => simp [hi, (hn.2 i).1] at hsub
    have hlive := hst.unmarked hsome
    refine seq (keeps_loop (fun _ l' => l' = l) rfl ?_)
    rintro s _ rfl
    split
    · have hput : Has true { st with
          ioSqs := update st.ioSqs idx (some s.1) } _ := hst.live hlive hlive
      obtain ⟨found, back, rfl, hf⟩ := hput
      refine seq ⟨⟨found, back, rfl, .inl hf, nofun⟩, fun _ _ => ?_⟩
      show fenceRules.Keeps (sendAll s.2) _ ⟨true, if st.fenceFailed then _ else _⟩
      rw [hlive]
      exact keeps_sendAll _
    · refine keeps_free_then (free_readSqe s.1) hst.ne_idle fun e _ => ?_
      cases e with
      | none => exact rfl
      | some e => exact hst.keeps_consume hsome rfl

theorem mild_postAdmin {cdw0 : BitVec 32} {sqHead : Nat}
    {cid status : BitVec 16} :
    Only Op.Free (postAdmin st cdw0 sqHead cid status) (Mild st) := by
  refine steady_bind.mpr (none_postCompletion.mono fun _ r hr => ?_)
  exact Mild.posted ⟨rfl, fun hn => ⟨⟨hn.1.1, hr hn.1.2⟩, hn.2⟩⟩

theorem keeps_finishAdmin {out : AdminOutcome} (sqHead : Nat)
    (cid : BitVec 16) (hst : Has true out.st l) :
    fenceRules.Keeps (finishAdmin out sqHead cid) (fun l st => Has true st l) l := by
  unfold finishAdmin
  split
  · refine (keeps_unlock hst).comp fun l₁ _ hl₁ => ?_
    refine (stays_free free_fenceWorkers l₁ hl₁).comp fun l₁ held hl₁ => ?_
    -- the fence of a Delete Queue holds
    refine seq ⟨hl₁.ne_idle, fun _ hheld => ?_⟩
    obtain rfl : held = true := hheld
    refine keeps_lock hl₁ fun st l₂ hst₂ => ?_
    refine keeps_free_then mild_postAdmin hst₂.ne_idle fun st₃ hst₃ => ?_
    exact keeps_free_then free_dropScope hst₂.ne_idle fun _ _ => hst₂.mono hst₃
  · refine (keeps_free mild_postAdmin hst.ne_idle).mono ?_
    rintro _ st ⟨rfl, hmild⟩
    exact hst.mono hmild

theorem stays_adminSqDoorbell (newTail : Nat) :
    fenceRules.Stays (Out true) (adminSqDoorbell newTail) := by
  have hsome {st : NvmeState} {sq : SubQueue} (hsq : st.adminSq = some sq) :
      ¬ NoQueues st := fun hn => nomatch hn.1.1.symm.trans hsq
  refine stays_lock fun st l hst => ?_
  split
  · exact keeps_unlock hst
  next sq hsq =>
  split
  · exact keeps_unlock hst
  have hlive := hst.unmarked (hsome hsq)
  refine seq (keeps_loop (fun st l => Has true st l) (hst.live hlive hlive) ?_)
  intro st l hst
  unfold adminRound
  split
  · exact keeps_unlock hst
  next sq hsq =>
  split
  · exact keeps_unlock hst
  have hlive := hst.unmarked (hsome hsq)
  refine keeps_free_then (free_readSqe sq) hst.ne_idle fun e _ => ?_
  cases e with
  | none => exact hst.live hlive hlive
  | some e =>
    refine hst.keeps_consume (hsome hsq) ?_
    refine keeps_free_then (unmoved_processAdminCmd e) hst.ne_idle fun out hout => ?_
    exact (keeps_finishAdmin _ _ (hst.live hlive (hout.trans hlive))).comp
      fun l st hst => hst

theorem stays_enable (newCc : BitVec 32) :
    fenceRules.Stays (Out true) (enable newCc) := by
  refine stays_lock fun st l hst => ?_
  have hfatal : fenceRules.Keeps
      (step (.unlock ({ st with cc := newCc } : NvmeState).setFatal .plain))
      (fun l' _ => Out true l') l := keeps_unlock (hst.mono ⟨rfl, id⟩)
  show fenceRules.Keeps (if st.fenceFailed = true then _ else _) _ l
  split
  · exact hfatal
  next hmark =>
  have hlive : st.fenceFailed = false := Bool.eq_false_iff.mpr hmark
  refine keeps_ite (fun _ => ?_) fun _ => hfatal
  refine keeps_free_then (free_queueBaseOk _ _ _) hst.ne_idle fun ok _ => ?_
  refine keeps_ite (fun _ => ?_) fun _ => hfatal
  refine keeps_free_then (free_queueBaseOk _ _ _) hst.ne_idle fun ok _ => ?_
  exact keeps_ite (fun _ => keeps_unlock (hst.live hlive hlive)) fun _ => hfatal

/-- The section that takes the queues away. -/
theorem Has.retire (h : Has true st l)
    (hp : fenceRules.Keeps p Q ⟨true, .down⟩) :
    fenceRules.Keeps (step (.unlock st.retireQueues .down) >>= fun _ => p) Q l := by
  have hnone : NoQueues st.retireQueues := ⟨⟨rfl, rfl⟩, fun _ => ⟨rfl, rfl⟩⟩
  have hput : Has true st.retireQueues l := h.mono ⟨rfl, fun _ => hnone⟩
  obtain ⟨found, back, rfl, hf⟩ := hput
  exact seq ⟨⟨found, back, rfl, .inl hf, fun _ => hnone⟩, fun _ _ => hp⟩

/-- The section after the fence finds no queue, and may mark the
controller. -/
theorem keeps_back {f : NvmeState → Prog R}
    (hf : ∀ st l, Has true st l → (∀ newCc, fenceRules.Keeps
      (step (.unlock { st.failFence with cc := newCc } .plain))
      (fun l' _ => Out true l') l) → fenceRules.Keeps (f st) Q l) :
    fenceRules.Keeps (step .lock >>= f) Q ⟨true, .down⟩ := by
  refine seq ⟨nofun, fun st hst => hf st _ ?_ fun newCc => ?_⟩
  · exact ⟨st, _, rfl, rfl, hst.1, fun _ h => h⟩
  · exact ⟨⟨st, true, rfl, .inr ⟨rfl, hst.2 rfl, rfl⟩, nofun⟩,
      fun _ _ => ⟨.inl rfl, rfl⟩⟩

end

theorem stays_disable (newCc : BitVec 32) :
    fenceRules.Stays (Out true) (disable newCc) := by
  refine stays_lock fun st l hst => hst.retire ?_
  refine keeps_free_then free_fenceWorkers nofun fun fence _ => ?_
  refine seq ⟨nofun, fun _ _ => ?_⟩
  refine keeps_back fun st l hst hfail => ?_
  cases fence with
  | true => exact Has.release (hst.mono ⟨rfl, id⟩) (stays_free free_dropScope)
  | false => exact hfail newCc

theorem stays_shutdown (newCc : BitVec 32) :
    fenceRules.Stays (Out true) (shutdown newCc) := by
  refine stays_lock fun st l hst => Has.retire (hst.mono ⟨rfl, id⟩) ?_
  refine keeps_free_then free_fenceWorkers nofun fun fence _ => ?_
  cases fence with
  | false => exact keeps_back fun st l _ hfail => hfail st.cc
  | true =>
    refine keeps_free_then free_flushBacking nofun fun flushed _ => ?_
    refine keeps_back fun st l hst _ => ?_
    cases flushed with
    | true =>
      exact Has.release (hst.mono ⟨rfl, id⟩) (stays_free free_dropScope)
    | false =>
      exact Has.release (hst.mono ⟨rfl, id⟩) (stays_free free_dropScope)

theorem stays_guestCall (c : Call) :
    fenceRules.Stays (Out true) (guestCall c) := by
  cases c with
  | sqDoorbell qid newTail =>
    exact stays_ite (stays_adminSqDoorbell newTail)
      (stays_ioSqDoorbell qid newTail)
  | reg r =>
    refine stays_section fun st => ?_
    unfold NvmeState.setAdminReg
    split
    · exact ⟨rfl, id⟩
    · cases r <;> exact ⟨rfl, id⟩
  | cc newCc =>
    refine stays_lock fun st l hst => hst.release ?_
    have hrest := stays_ite (c := ccEnabled st.cc ∧ ¬ ccEnabled newCc)
      (stays_disable newCc) (stays_ite (c := ¬ ccEnabled st.cc ∧ ccEnabled newCc)
        (stays_enable newCc)
        (stays_section (f := fun st => { st with cc := newCc }) fun _ => ⟨rfl, id⟩))
    show fenceRules.Stays (Out true) (if _ ∧ _ then _ else _)
    split
    · exact (stays_shutdown newCc).seq fun _ => hrest
    · exact hrest

theorem keeps_vcpu : fenceRules.Keeps vcpu (fun _ _ => True) ⟨true, .idle⟩ := by
  refine keeps_loop (fun _ l => l = ⟨true, .idle⟩) rfl ?_
  rintro _ _ rfl
  refine seq ⟨rfl, fun c _ => ?_⟩
  refine seq ((stays_guestCall c ⟨true, .away⟩ ⟨.inl rfl, rfl⟩).mono fun l _ hl => ?_)
  refine seq ⟨hl.1, fun _ _ => ?_⟩
  obtain ⟨v, mode⟩ := l
  obtain ⟨-, rfl⟩ := hl
  rfl

-- ==== the invariant

/-- A step that touches neither the state nor its lock, and admits nothing. -/
structure Frame (h h' : Host) : Prop where
  owner : h'.owner = h.owner
  st : h'.st = h.st
  inCall : h'.inCall = h.inCall
  downs : h'.downs = h.downs
  consumed : h'.consumed = h.consumed
  chan : h'.chan <:+ h.chan

theorem Frame.refl (h : Host) : Frame h h :=
  ⟨rfl, rfl, rfl, rfl, rfl, List.suffix_rfl⟩

theorem frame_exec {t : Nat} {c : Choice} {o : Op} {h h' : Host} {a : Ans o}
    (ho : o.Free) (hex : h.exec t c o = some (a, h')) : Frame h h' := by
  cases o
  case lock | unlock | consume | send | begins | returns => cases ho
  case lookup | writeToPrp | expired | sync | writeCqe | readSqe | prpToIovec |
      readAt | writeAt =>
    cases c <;> cases hex
    exact .refl h
  case gateLock | rxLock | pauseVcpus =>
    simp only [Host.exec] at hex
    split at hex <;> cases hex
    exact ⟨rfl, rfl, rfl, rfl, rfl, List.suffix_rfl⟩
  case recv =>
    simp only [Host.exec] at hex
    split at hex <;> cases hex
    · exact .refl h
    next r rest hchan =>
      exact ⟨rfl, rfl, rfl, rfl, rfl, hchan ▸ List.suffix_cons r rest⟩
  all_goals
    cases hex
    exact ⟨rfl, rfl, rfl, rfl, rfl, List.suffix_rfl⟩

/-- Where thread `t` is. -/
structure At (h : Host) (t : Nat) (l : Loc) : Prop where
  owner : h.owner = some t ↔ ∃ found back, l.mode = .locked found back
  fresh : ∀ found back, l.mode = .locked found back → found = h.st
  inCall : l.vcpu = true → l.mode ≠ .idle → t ∈ h.inCall
  alone : l.Alone → t ∈ h.downs ∧ ∀ u ∈ h.inCall, u = t
  empty : l.mode = .down → NoQueues h.st
  paid : h.st.fenceFailed = true → l.vcpu = true → l.mode ≠ .owing

variable {h h' : Host} {gh : Nat → Loc} {t : Nat} {c : Choice} {o : Op} {a : Ans o} {l : Loc}

/-- A thread that neither had the lock nor has it now keeps its place. -/
theorem At.other (hat : At h t l) (howner : h.owner ≠ some t)
    (howner' : h'.owner ≠ some t) (hcall : t ∈ h.inCall → t ∈ h'.inCall)
    (halone : l.Alone → t ∈ h'.downs ∧ ∀ u ∈ h'.inCall, u = t)
    (hempty : l.mode = .down → NoQueues h'.st)
    (hpaid : h'.st.fenceFailed = true → l.vcpu = true → l.mode ≠ .owing) :
    At h' t l := by
  have hlocked : ¬ ∃ found back, l.mode = .locked found back :=
    fun hl => howner (hat.owner.mpr hl)
  exact ⟨iff_of_false howner' hlocked,
    fun found back hl => absurd ⟨found, back, hl⟩ hlocked,
    fun hv hm => hcall (hat.inCall hv hm), halone, hempty, hpaid⟩

theorem At.same (hat : At h t l) (howner : h'.owner = h.owner)
    (hst : h'.st = h.st) (hcall : h'.inCall = h.inCall)
    (hdowns : h'.downs = h.downs) : At h' t l := by
  obtain ⟨h₁, h₂, h₃, h₄, h₅, h₆⟩ := hat
  refine ⟨?_, ?_, ?_, ?_, ?_, ?_⟩
  · rwa [howner]
  · rwa [hst]
  · rwa [hcall]
  · rwa [hcall, hdowns]
  · rwa [hst]
  · rwa [hst]

/-- A head doorbell of the driver leaves mark and queues. -/
theorem cqDoorbell_spec (st : NvmeState) (qid newHead : Nat) :
    (cqDoorbell st qid newHead).fenceFailed = st.fenceFailed ∧
      (NoQueues st → NoQueues (cqDoorbell st qid newHead)) := by
  unfold Nvme.cqDoorbell
  split
  · exact ⟨rfl, fun hn => ⟨⟨hn.1.1, by rw [hn.1.2]; rfl⟩, hn.2⟩⟩
  split
  · exact ⟨rfl, id⟩
  next i _ => exact ⟨rfl, fun hn => hn.setIoCq (by rw [(hn.2 i).2]; rfl)⟩

/-- The runs of the theorem: every fence of a Delete Queue holds, and no call
overlaps a reset or a shutdown from the section that takes the queues away to
the end of its next section. -/
def calm : Act Choice CqRing → Pool Op Ans Host → Bool
  | .run t _, p =>
    match (p.thr t).head? with
    | some (.fenced held) => held
    | some (.unlock _ .down) => p.sh.inCall.all (· = t)
    | some .begins => p.sh.downs.isEmpty
    | _ => true
  | .env _, _ => true

def Calm (a : Act Choice CqRing) (p : Pool Op Ans Host) : Prop :=
  calm a p = true

instance (a : Act Choice CqRing) (p : Pool Op Ans Host) : Decidable (Calm a p) :=
  inferInstanceAs (Decidable (_ = _))

/-- What a step does on a marked controller: the mark stays, nothing is
fetched, and nothing is sent. -/
structure Quiet (h h' : Host) : Prop where
  mark : h'.st.fenceFailed = true
  consumed : h'.consumed = h.consumed
  chan : h'.chan <:+ h.chan

variable {p : Pool Op Ans Host} {k : Ans o → Prog Unit}

/-- What the condition says about the next operation. -/
theorem calm_op (hthr : p.thr t = .op o k) (hcalm : Calm (.run t c) p) :
    (∀ held, o = .fenced held → held = true) ∧
    (∀ st, o = .unlock st .down → ∀ u ∈ p.sh.inCall, u = t) ∧
    (o = .begins → p.sh.downs = []) := by
  have hhead : (p.thr t).head? = some o := by
    rw [hthr]
    rfl
  simp only [Calm, calm, hhead] at hcalm
  refine ⟨?_, ?_, ?_⟩
  · rintro held rfl
    exact hcalm
  · rintro st rfl
    simpa using hcalm
  · rintro rfl
    simpa using hcalm

theorem at_step (hinv : ∀ u, At p.sh u (gh u)) (hthr : p.thr t = .op o k)
    (hcalm : Calm (.run t c) p) (hallow : fenceRules.allow (gh t) o)
    (hex : p.sh.exec t c o = some (a, h')) (u : Nat) :
    At h' u (update gh t (fenceRules.next (gh t) o a) u) := by
  by_cases hfree : o.Free
  · have hframe := frame_exec hfree hex
    rw [next_free hfree, update_eq_self]
    exact (hinv u).same hframe.owner hframe.st hframe.inCall hframe.downs
  obtain ⟨-, hretire, hbegins⟩ := calm_op hthr hcalm
  revert u
  refine (forall_update_iff gh (At h')).mpr ?_
  cases o
  case lock =>
    simp only [Host.exec] at hex
    split at hex <;> cases hex
    next hnone =>
    refine ⟨⟨⟨fun _ => ⟨_, _, rfl⟩, fun _ => rfl⟩, ?_,
      fun hv _ => (hinv t).inCall hv hallow, ?_, nofun, fun _ _ => nofun⟩,
      fun u hu => ?_⟩
    · rintro found back ⟨⟩
      rfl
    · rintro (hdown | ⟨found, hdown⟩)
      · cases hdown
      · have hback : (gh t).mode.isDown = true := (Mode.locked.inj hdown).2
        refine (hinv t).alone (.inl ?_)
        cases hmode : (gh t).mode <;> rw [hmode] at hback <;> cases hback
    · have hat := hinv u
      refine hat.other (by rw [hnone]; nofun) (fun heq => ?_) id hat.alone
        hat.empty hat.paid
      exact hu (Option.some.inj heq).symm
  case unlock st note =>
    obtain ⟨found, back, hl, hst, hdown⟩ := hallow
    have howner := (hinv t).owner.mpr ⟨found, back, hl⟩
    obtain rfl := (hinv t).fresh found back hl
    have hcall : (gh t).vcpu = true → t ∈ p.sh.inCall := fun hv =>
      (hinv t).inCall hv (by rw [hl]; nofun)
    cases hex
    refine ⟨?_, fun u hu => ?_⟩
    · cases note with
      | down =>
        refine ⟨iff_of_false nofun nofun, nofun, fun hv _ => hcall hv,
          fun _ => ⟨List.mem_cons_self, hretire st rfl⟩, fun _ => hdown rfl,
          fun _ _ => nofun⟩
      | plain =>
        show At _ t ⟨(gh t).vcpu, if st.fenceFailed then .away else .owing⟩
        cases hmark : st.fenceFailed with
        | true =>
          exact ⟨iff_of_false nofun nofun, nofun, fun hv _ => hcall hv,
            nofun, nofun, fun _ _ => nofun⟩
        | false =>
          exact ⟨iff_of_false nofun nofun, nofun, fun hv _ => hcall hv, nofun,
            nofun, fun hm => Bool.noConfusion (hm.symm.trans hmark)⟩
    · have hne : p.sh.owner ≠ some u := fun h =>
        hu (Option.some.inj (h.symm.trans howner))
      refine (hinv u).other hne nofun id (fun hal => ?_) (fun hm => ?_) ?_
      · obtain ⟨hmem, honly⟩ := (hinv u).alone hal
        refine ⟨?_, honly⟩
        cases note with
        | down => exact List.mem_cons_of_mem _ hmem
        | plain => exact List.mem_filter.mpr ⟨hmem, decide_eq_true hu⟩
      · rcases hst with hst | ⟨-, hnone, -⟩
        · refine hst.empty (Bool.eq_false_iff.mpr fun hv => ?_) ((hinv u).empty hm)
          exact hu (((hinv u).alone (.inl hm)).2 t (hcall hv)).symm
        · exact hnone
      · intro hmark hv howing
        rcases hst with hst | ⟨rfl, -, -⟩
        · exact (hinv u).paid (hst.mark ▸ hmark) hv howing
        · refine hu (((hinv t).alone (.inr ⟨_, hl⟩)).2 u ?_)
          exact (hinv u).inCall hv (by rw [howing]; nofun)
  case consume | send =>
    cases hex
    exact ⟨(hinv t).same rfl rfl rfl rfl, fun u _ => (hinv u).same rfl rfl rfl rfl⟩
  case begins =>
    cases c <;> simp only [Host.exec, reduceCtorEq] at hex
    split at hex <;> cases hex
    have hidle : (gh t).mode = .idle := hallow
    have hdowns := hbegins rfl
    have halone {u : Nat} {l : Loc} (hat : At p.sh u l) : ¬ l.Alone := by
      intro hal
      have hmem := (hat.alone hal).1
      rw [hdowns] at hmem
      cases hmem
    refine ⟨⟨iff_of_false (fun ho => ?_) nofun, nofun,
      fun _ _ => List.mem_cons_self, nofun, nofun, fun _ _ => nofun⟩,
      fun u _ => ?_⟩
    · obtain ⟨found, back, hl⟩ := (hinv t).owner.mp ho
      cases hidle.symm.trans hl
    · obtain ⟨h₁, h₂, h₃, -, h₅, h₆⟩ := hinv u
      exact ⟨h₁, h₂, fun hv hm => List.mem_cons_of_mem _ (h₃ hv hm),
        fun hal => absurd hal (halone (hinv u)), h₅, h₆⟩
  case returns =>
    cases hex
    refine ⟨⟨iff_of_false (fun ho => ?_) nofun, nofun, fun _ hm => absurd rfl hm,
      nofun, nofun, fun _ _ => nofun⟩, fun u hu => ?_⟩
    · obtain ⟨found, back, hl⟩ := (hinv t).owner.mp ho
      rcases hallow with hm | hm <;> cases hm.symm.trans hl
    · obtain ⟨h₁, h₂, h₃, h₄, h₅, h₆⟩ := hinv u
      exact ⟨h₁, h₂,
        fun hv hm => List.mem_filter.mpr ⟨h₃ hv hm, decide_eq_true hu⟩,
        fun hal => ⟨(h₄ hal).1, fun v hv =>
          (h₄ hal).2 v (List.mem_of_mem_filter hv)⟩, h₅, h₆⟩
  all_goals exact absurd trivial hfree

/-- One step of a run leaves a marked controller without queues, and admits
nothing on it. -/
theorem sound_step (hinv : ∀ u, At p.sh u (gh u))
    (hsound : p.sh.st.fenceFailed = true → NoQueues p.sh.st)
    (hallow : fenceRules.allow (gh t) o)
    (hex : p.sh.exec t c o = some (a, h')) :
    (h'.st.fenceFailed = true → NoQueues h'.st) ∧
      (p.sh.st.fenceFailed = true → Quiet p.sh h') := by
  by_cases hfree : o.Free
  · have hframe := frame_exec hfree hex
    rw [hframe.st]
    exact ⟨hsound, fun hm => ⟨hframe.st ▸ hm, hframe.consumed, hframe.chan⟩⟩
  cases o
  case lock =>
    simp only [Host.exec] at hex
    split at hex <;> cases hex
    exact ⟨hsound, fun hm => ⟨hm, rfl, List.suffix_rfl⟩⟩
  case unlock st note =>
    obtain ⟨found, back, hl, hst, -⟩ := hallow
    obtain rfl := (hinv t).fresh found back hl
    cases hex
    rcases hst with hst | ⟨-, hnone, hmark⟩
    · exact ⟨fun hm => hst.failed (hst.mark ▸ hm),
        fun hm => ⟨hst.mark.trans hm, rfl, List.suffix_rfl⟩⟩
    · exact ⟨fun _ => hnone, fun _ => ⟨hmark, rfl, List.suffix_rfl⟩⟩
  case consume =>
    obtain ⟨found, back, hl, hlive⟩ := hallow
    obtain rfl := (hinv t).fresh found back hl
    cases hex
    exact ⟨hsound, fun hm => Bool.noConfusion (hm.symm.trans hlive)⟩
  case send =>
    cases hex
    exact ⟨hsound, fun hm => absurd hallow.2 ((hinv t).paid hm hallow.1)⟩
  case begins =>
    cases c <;> simp only [Host.exec, reduceCtorEq] at hex
    split at hex <;> cases hex
    exact ⟨hsound, fun hm => ⟨hm, rfl, List.suffix_rfl⟩⟩
  case returns =>
    cases hex
    exact ⟨hsound, fun hm => ⟨hm, rfl, List.suffix_rfl⟩⟩
  all_goals exact absurd trivial hfree

-- ==== every run

/-- The invariant, and whatever a step on a marked controller keeps. -/
def outline (K : Host → Prop)
    (hK : ∀ {h h' : Host}, (h.st.fenceFailed = true → Quiet h h') → K h → K h') :
    Outline system Calm Loc where
  toDiscipline := fenceRules
  post _ := True
  inv h gh := (∀ t, At h t (gh t)) ∧
    (h.st.fenceFailed = true → NoQueues h.st) ∧ K h
  op_step {_ t _ o _ _ _ gh} hthr hcalm hinv hallow hex := by
    obtain ⟨hat, hsound, hk⟩ := hinv
    obtain ⟨hsound', hquiet⟩ := sound_step hat hsound hallow hex
    refine ⟨?_, at_step hat hthr hcalm hallow hex, hsound', hK hquiet hk⟩
    cases o
    case lock =>
      simp only [system, Host.exec] at hex
      split at hex <;> cases hex
      exact ⟨hsound, (hat t).empty⟩
    case fenced => exact (calm_op hthr hcalm).1 _ rfl
    all_goals trivial
  env_step {s _ r _} _ hinv hthr henv := by
    obtain ⟨hat, hsound, hk⟩ := hinv
    obtain ⟨h', hring, rfl⟩ := Option.map_eq_some_iff.mp henv
    unfold Host.ring at hring
    split at hring <;> cases hring
    next hnone =>
    obtain ⟨hmark, hempty⟩ := cqDoorbell_spec s.sh.st r.qid r.newHead
    have hne (t : Nat) : s.sh.owner ≠ some t := by
      rw [hnone]
      nofun
    refine ⟨_, ⟨fun t => ?_, fun hm => ?_, hK ?_ hk⟩, hthr⟩
    · exact (hat t).other (hne t) (hne t) id (hat t).alone
        (fun hm => hempty ((hat t).empty hm)) fun hm => (hat t).paid (hmark ▸ hm)
    · exact hempty (hsound (hmark ▸ hm))
    · exact fun hm => ⟨hmark.trans hm, rfl, List.suffix_rfl⟩

theorem outline_start (dev : Device) :
    (outline (fun _ => True) fun _ _ => trivial).Holds (start dev) fun t =>
      if t ≤ numWorkers then ⟨false, .away⟩ else ⟨true, .idle⟩ := by
  refine ⟨⟨fun t => ?_, nofun, trivial⟩, fun t => ?_⟩
  · dsimp only
    split
    · exact ⟨iff_of_false nofun nofun, nofun, nofun, nofun, nofun, nofun⟩
    · exact ⟨iff_of_false nofun nofun, nofun, fun _ h => absurd rfl h, nofun,
        nofun, nofun⟩
  · rcases lt_trichotomy t numWorkers with h | h | h
    · simp only [start, if_pos h, if_pos h.le]
      exact (stays_ioWorker dev).keeps ⟨.inl rfl, rfl⟩ fun _ _ _ => trivial
    · subst h
      exact stays_migration.keeps ⟨.inl rfl, rfl⟩ fun _ _ _ => trivial
    · simp only [start, if_neg h.le.not_gt, if_neg h.ne', if_neg h.not_ge]
      exact keeps_vcpu

/-- Steps of one vCPU. -/
def steps (n : Nat) (c : Choice) : List (Act Choice CqRing) :=
  List.replicate n (.run (numWorkers + 1) c)

/-- The driver sets the admin queues up and enables the controller. -/
def upRun : List (Act Choice CqRing) :=
  steps 6 (.call (.reg (.aqa 0x000F000F))) ++ steps 5 (.call (.reg (.asq 0x1000))) ++
    steps 5 (.call (.reg (.acq 0x2000))) ++ steps 4 (.call (.cc 1)) ++
    steps 5 (.flag true)

/-- One admin command on I/O queue 1, of `n` steps after its fetch. -/
def adminRun (newTail : Nat) (opcode : BitVec 8) (n : Nat) : List (Act Choice CqRing) :=
  steps 3 (.call (.sqDoorbell adminQueueId newTail)) ++
    steps 2 (.sqe (some ⟨opcode, 0, 0, 0x3000, 0, 0x00010001, 0x00010001, 0⟩)) ++
    steps n (.flag true)

/-- A reset whose fence runs into the deadline. -/
def missedReset : List (Act Choice CqRing) :=
  steps 2 (.call (.cc 0)) ++ steps 18 (.flag true)

/-- The driver enables the controller again and rings the admin doorbell. -/
def againRun : List (Act Choice CqRing) :=
  steps 2 (.call (.cc 1)) ++ steps 5 .go ++
    steps 2 (.call (.sqDoorbell adminQueueId 1)) ++ steps 3 .go

end Rshyve.Nvme
