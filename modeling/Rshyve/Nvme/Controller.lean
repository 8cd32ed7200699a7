/-
# The NVMe controller's threads

`vmm-storage/src/nvme` as programs over atomic steps: the vCPUs that ring
doorbells and write registers (`io.rs`, `admin.rs`, `regs.rs`), the eight I/O
workers (`workers.rs`), and the migration that pauses the device and reads its
state (`mod.rs`, and the device part of `control/mod.rs`). The gate that
parks the workers is `vmm-devices/src/quiesce.rs`.

The state lock answers with the record behind it and takes the new record
back, so a critical section reads as the source does and may have steps of
its own in it: guest memory is read and written under the lock. The gate's
condition variable is a release and a new acquisition of the gate's lock; it
may wake for no reason. A deadline may pass whenever the code looks at it.

The channel never closes: the halt that drops its sender is left out. A
migration that goes through leaves nothing to do here, so it always fails in
the end.

# History

`consume` and `fenced` do nothing. They mark where a command is taken off a
queue, and how the fence of a Delete Queue ended. The note of an `unlock`
marks the section that takes all queues away.
-/
import Rshyve.Conc.Proc
import Rshyve.Nvme.Queues

namespace Rshyve.Nvme

open Conc
open Mem (SubMapping)

-- ==== the steps

/-- What a section did to the queues: nothing that matters here, or it took
them all away. -/
inductive Note where
  | plain
  | down
  deriving DecidableEq, Repr

/-- What a vCPU asks of the controller. -/
inductive Call where
  | sqDoorbell (qid newTail : Nat)
  | cc (newCc : BitVec 32)
  | reg (r : AdminReg)

/-- The atomic steps. `readAt` and `writeAt` move bytes between the pinned
pages, in order, and the backing store from `offset` on. -/
inductive Op where
  | lock
  | unlock (st : NvmeState) (note : Note)
  | readSqe (gpa : Nat)
  | writeCqe (gpa : Nat) (cqe : Cqe)
  | lookup (base : BitVec 64) (len : Nat)
  | writeToPrp (prp1 prp2 : BitVec 64)
  | fire (iv : Nat)
  | clearPending
  | loadPaused
  | loadDrains
  | loadActive
  | gateLock
  | gateUnlock
  | park
  | unpark
  | addDrain
  | subDrain
  | setPaused (b : Bool)
  | expired
  | rxLock
  | rxUnlock
  | recv
  | send (r : IoRequest)
  | prpToIovec (prp1 prp2 : BitVec 64) (len : Nat)
  | readAt (iov : List SubMapping) (offset : Nat)
  | writeAt (iov : List SubMapping) (offset : Nat)
  | sync
  | begins
  | returns
  | pauseVcpus
  | resumeVcpus
  | consume (qid : Nat) (e : Sqe)
  | fenced (held : Bool)

/-- What a step answers. A transfer answers the bytes it moved, or `none` for
an error. -/
@[reducible] def Ans : Op → Type
  | .lock => NvmeState
  | .readSqe _ => Option Sqe
  | .writeCqe .. | .lookup .. | .writeToPrp .. | .loadPaused | .expired
  | .sync => Bool
  | .prpToIovec .. => Option (List SubMapping)
  | .readAt .. | .writeAt .. => Option Nat
  | .loadDrains | .loadActive => Nat
  | .recv => Option IoRequest
  | .begins => Call
  | .unlock .. | .fire _ | .clearPending | .gateLock | .gateUnlock | .park
  | .unpark | .addDrain | .subDrain | .setPaused _ | .rxLock | .rxUnlock
  | .send _ | .returns | .pauseVcpus | .resumeVcpus | .consume ..
  | .fenced _ => Unit

abbrev Prog := Proc Op Ans

abbrev step (o : Op) : Prog (Ans o) := Proc.call o

-- ==== the gate

def isPaused : Prog Bool := do
  if ← step .loadPaused then pure true
  else do
    let n ← step .loadDrains
    pure (n != 0)

/-- The wait in `park_if_paused`. -/
def parkedLoop : Prog Unit :=
  Proc.loop (fun _ : Unit => do
    if ← isPaused then do
      step .gateUnlock
      step .gateLock
      pure (.inl ())
    else pure (.inr ())) ()

def parkIfPaused : Prog Unit := do
  if ← isPaused then do
    step .gateLock
    step .park
    parkedLoop
    step .unpark
    step .gateUnlock
  else pure ()

/-- The wait in `wait_quiesced`. -/
def quiesceLoop : Prog Unit :=
  Proc.loop (fun _ : Unit => do
    let n ← step .loadActive
    if n = 0 then pure (.inr ())
    else if ← step .expired then pure (.inr ())
    else do
      step .gateUnlock
      step .gateLock
      pure (.inl ())) ()

def waitQuiesced : Prog Bool := do
  step .gateLock
  quiesceLoop
  let n ← step .loadActive
  step .gateUnlock
  pure (n == 0)

/-- `Drop for DrainScope`. -/
def dropScope : Prog Unit := do
  step .gateLock
  step .subDrain
  step .gateUnlock

/-- `true`: the caller holds a drain scope and the workers have stopped. -/
def fenceWorkers : Prog Bool := do
  step .addDrain
  if ← waitQuiesced then pure true
  else do
    dropScope
    pure false

/-- `flush_file` with a durable intent. -/
def flushBacking : Prog Bool := do
  step .addDrain
  if ← waitQuiesced then do
    let synced ← step .sync
    dropScope
    pure synced
  else do
    dropScope
    pure false

-- ==== completions

def CompQueue.cqe (cq : CompQueue) (cdw0 : BitVec 32) (sqid sqHead : Nat)
    (cid : BitVec 16) (status : BitVec 16) : Cqe :=
  ⟨cdw0, sqHead, sqid, cid, Cqe.withPhase status cq.phase⟩

/-- `post_completion`: the queue afterwards, and whether all went well. A
queue that is gone or full drops the completion. -/
def postCompletion (cqOpt : Option CompQueue) (cdw0 : BitVec 32)
    (sqid sqHead : Nat) (cid : BitVec 16) (status : BitVec 16) :
    Prog (Option CompQueue × Bool) :=
  match cqOpt with
  | none => pure (none, true)
  | some cq =>
    if cq.nextTail = cq.head then pure (some cq, true)
    else match Mem.checkedAdd cq.base.toNat (cq.tail * cqeSize) with
      | none => pure (some cq, false)
      | some gpa => do
        if ← step (.writeCqe gpa (cq.cqe cdw0 sqid sqHead cid status))
        then do
          if cq.ien then step (.fire cq.iv) else pure ()
          pure (some cq.advance, true)
        else pure (some cq, false)

-- ==== submission

/-- Read the entry at the head of a submission queue. -/
def readSqe (sq : SubQueue) : Prog (Option Sqe) :=
  match Mem.checkedAdd sq.base.toNat (sq.head * sqeSize) with
  | none => pure none
  | some gpa => step (.readSqe gpa)

def SubQueue.skip (sq : SubQueue) : SubQueue :=
  { sq with head := (sq.head + 1) % sq.size }

/-- The checks of `io_sq_doorbell`: the slot, the queue with its new tail,
and the instance of its completion queue. -/
def submission (st : NvmeState) (qid newTail : Nat) :
    Option (Fin maxIoQueues × SubQueue × Nat) := do
  let idx ← ioQueueIndex qid
  let sq ← st.ioSqs idx
  let cqIdx ← ioQueueIndex sq.cqId
  let cq ← st.ioCqs cqIdx
  if newTail ≥ sq.size then none
  else some (idx, { sq with tail := newTail }, cq.inst)

/-- The fetch loop. An entry that cannot be read is skipped. -/
def fetchLoop (qid : Nat) (cqInstance : Nat) (sq : SubQueue) : Prog (SubQueue × List IoRequest) :=
  Proc.loop (fun s : SubQueue × List IoRequest =>
    if s.1.head = s.1.tail then pure (.inr s)
    else do
      match ← readSqe s.1 with
      | none => pure (.inl (s.1.skip, s.2))
      | some e => do
        step (.consume qid e)
        pure (.inl (s.1.skip,
          s.2 ++ [e.request qid s.1.cqId s.1.inst cqInstance]))) (sq, [])

def sendAll : List IoRequest → Prog Unit
  | [] => pure ()
  | r :: rs => do
    step (.send r)
    sendAll rs

def ioSqDoorbell (qid newTail : Nat) : Prog Unit := do
  let st ← step .lock
  match submission st qid newTail with
  | none => step (.unlock st .plain)
  | some (idx, sq, cqInstance) => do
    let (sq, requests) ← fetchLoop qid cqInstance sq
    step (.unlock
      { st with ioSqs := Function.update st.ioSqs idx (some sq) } .plain)
    sendAll requests

-- ==== the workers

/-- The namespace: its geometry, and whether it may be written. -/
structure Device where
  blockSize : Nat
  totalBlocks : Nat
  readOnly : Bool

def nvmOpcFlush : BitVec 8 := 0x00#8
def nvmOpcWrite : BitVec 8 := 0x01#8
def nvmOpcRead : BitVec 8 := 0x02#8

/-- `process_io_request`: the status of the completion. -/
def processIoRequest (dev : Device) (req : IoRequest) : Prog (BitVec 16) :=
  if req.nsid ≠ 1#32 then pure (scInvalidNs ||| scDnr)
  else if req.nlb * dev.blockSize > maxXferBytes then
    pure (scInvalidField ||| scDnr)
  else if 2 ^ 64 ≤ req.slba * dev.blockSize then
    pure (scInvalidField ||| scDnr)
  else if ¬ (Mem.checkedAdd req.slba req.nlb).any (· ≤ dev.totalBlocks) then
    pure (scInvalidField ||| scDnr)
  else if req.opcode = nvmOpcRead then do
    match ← step (.prpToIovec req.prp1 req.prp2 (req.nlb * dev.blockSize)) with
    | none => pure scDataXferError
    | some iov =>
      let n ← step (.readAt iov (req.slba * dev.blockSize))
      if n = some (req.nlb * dev.blockSize) then pure scSuccess
      else pure scDataXferError
  else if req.opcode = nvmOpcWrite then
    if dev.readOnly then pure (scWriteToRoRange ||| scDnr)
    else do
      match ← step (.prpToIovec req.prp1 req.prp2 (req.nlb * dev.blockSize)) with
      | none => pure scDataXferError
      | some iov =>
        let n ← step (.writeAt iov (req.slba * dev.blockSize))
        if n = some (req.nlb * dev.blockSize) then
          if req.fua then do
            if ← step .sync then pure scSuccess else pure scInternalError
          else pure scSuccess
        else pure scDataXferError
  else if req.opcode = nvmOpcFlush then do
    if ← step .sync then pure scSuccess else pure scInternalError
  else pure (scInvalidOpcode ||| scDnr)

/-- Post a command's completion to its own queue. -/
def completeIo (req : IoRequest) (status : BitVec 16) : Prog Unit := do
  let st ← step .lock
  if queuesCurrent st req then
    match ioQueueIndex req.cqId with
    | none => step (.unlock st .plain)
    | some i => do
      let sqHead := (((ioQueueIndex req.sqid).bind st.ioSqs).map SubQueue.head).getD 0
      let (cq, posted) ←
        postCompletion (st.ioCqs i) 0 req.sqid sqHead req.cid status
      let st := { st with ioCqs := Function.update st.ioCqs i cq }
      step (.unlock (if posted then st else st.setFatal) .plain)
  else step (.unlock st .plain)

/-- A request taken off the channel. The worker parks with it in hand if the
gate is closed. -/
def runRequest (dev : Device) (req : IoRequest) : Prog Unit := do
  parkIfPaused
  let st ← step .lock
  step (.unlock st .plain)
  if queuesCurrent st req then do
    let status ← processIoRequest dev req
    completeIo req status
  else pure ()

def ioWorker (dev : Device) : Prog Unit :=
  Proc.loop (fun _ : Unit => do
    parkIfPaused
    step .rxLock
    if ← isPaused then do
      step .rxUnlock
      pure (.inl ())
    else do
      let got ← step .recv
      step .rxUnlock
      match got with
      | none => pure (.inl ())
      | some req => do
        runRequest dev req
        pure (.inl ())) ()

-- ==== admin commands

def adminOpcDeleteIoSq : BitVec 8 := 0x00#8
def adminOpcCreateIoSq : BitVec 8 := 0x01#8
def adminOpcGetLogPage : BitVec 8 := 0x02#8
def adminOpcDeleteIoCq : BitVec 8 := 0x04#8
def adminOpcCreateIoCq : BitVec 8 := 0x05#8
def adminOpcIdentify : BitVec 8 := 0x06#8
def adminOpcAbort : BitVec 8 := 0x08#8
def adminOpcSetFeatures : BitVec 8 := 0x09#8
def adminOpcGetFeatures : BitVec 8 := 0x0A#8

def queueBaseOk (base : BitVec 64) (entries entry : Nat) : Prog Bool :=
  if queueSpanOk base entries entry then step (.lookup base entry)
  else pure false

/-- The state, the status, the result, and whether the completion must wait
for the workers. -/
structure AdminOutcome where
  st : NvmeState
  status : BitVec 16
  cdw0 : BitVec 32
  fence : Bool

def AdminOutcome.plain (st : NvmeState) (status : BitVec 16)
    (cdw0 : BitVec 32) : AdminOutcome := ⟨st, status, cdw0, false⟩

def adminCreateIoCq (st : NvmeState) (e : Sqe) : Prog AdminOutcome :=
  match checkCreateIoCq st e.cdw10 e.cdw11 with
  | .error status => pure (.plain st status 0)
  | .ok idx => do
    if ← queueBaseOk e.prp1 (hi16 e.cdw10 + 1) cqeSize then
      pure (.plain (st.createIoCq idx e.prp1 e.cdw10 e.cdw11) scSuccess 0)
    else pure (.plain st (scInvalidField ||| scDnr) 0)

def adminCreateIoSq (st : NvmeState) (e : Sqe) : Prog AdminOutcome :=
  match checkCreateIoSq st e.cdw10 e.cdw11 with
  | .error status => pure (.plain st status 0)
  | .ok idx => do
    if ← queueBaseOk e.prp1 (hi16 e.cdw10 + 1) sqeSize then
      pure (.plain (st.createIoSq idx e.prp1 e.cdw10 e.cdw11) scSuccess 0)
    else pure (.plain st (scInvalidField ||| scDnr) 0)

def adminDeleteIoSq (st : NvmeState) (e : Sqe) : AdminOutcome :=
  match checkDeleteIoSq st e.cdw10 with
  | .error status => .plain st status 0
  | .ok idx => ⟨st.deleteIoSq idx, scSuccess, 0, true⟩

def adminDeleteIoCq (st : NvmeState) (e : Sqe) : AdminOutcome :=
  match checkDeleteIoCq st e.cdw10 with
  | .error status => .plain st status 0
  | .ok idx => ⟨st.deleteIoCq idx, scSuccess, 0, true⟩

/-- Identify and Get Log Page: `some` status for what is not known, or the
transfer of the data. -/
def adminData (st : NvmeState) (e : Sqe) (refused : Option (BitVec 16)) : Prog AdminOutcome :=
  match refused with
  | some status => pure (.plain st status 0)
  | none => do
    if ← step (.writeToPrp e.prp1 e.prp2) then pure (.plain st scSuccess 0)
    else pure (.plain st scDataXferError 0)

def identifyRefused (e : Sqe) : Option (BitVec 16) :=
  let cns := e.cdw10 &&& 0xFF#32
  if cns = 0#32 then
    if e.nsid ≠ 1#32 then some (scInvalidNs ||| scDnr) else none
  else if cns = 1#32 then none
  else some (scInvalidField ||| scDnr)

def logPageRefused (e : Sqe) : Option (BitVec 16) :=
  let lid := e.cdw10 &&& 0xFF#32
  if lid = 1#32 ∨ lid = 2#32 ∨ lid = 3#32 then none
  else some (scInvalidLogPage ||| scDnr)

def processAdminCmd (st : NvmeState) (e : Sqe) : Prog AdminOutcome :=
  if e.opcode = adminOpcIdentify then adminData st e (identifyRefused e)
  else if e.opcode = adminOpcCreateIoCq then adminCreateIoCq st e
  else if e.opcode = adminOpcCreateIoSq then adminCreateIoSq st e
  else if e.opcode = adminOpcDeleteIoSq then pure (adminDeleteIoSq st e)
  else if e.opcode = adminOpcDeleteIoCq then pure (adminDeleteIoCq st e)
  else if e.opcode = adminOpcGetFeatures then
    let (status, cdw0) := adminGetFeatures st e.cdw10
    pure (.plain st status cdw0)
  else if e.opcode = adminOpcSetFeatures then
    let (st, status, cdw0) := adminSetFeatures st e.cdw10 e.cdw11
    pure (.plain st status cdw0)
  else if e.opcode = adminOpcAbort then pure (.plain st scSuccess 0)
  else if e.opcode = adminOpcGetLogPage then
    adminData st e (logPageRefused e)
  else pure (.plain st (scInvalidOpcode ||| scDnr) 0)

/-- Post to whatever admin completion queue there is. -/
def postAdmin (st : NvmeState) (cdw0 : BitVec 32) (sqHead : Nat)
    (cid : BitVec 16) (status : BitVec 16) : Prog NvmeState := do
  let (cq, posted) ←
    postCompletion st.adminCq cdw0 adminQueueId sqHead cid status
  let st := { st with adminCq := cq }
  pure (if posted then st else st.setFatal)

/-- The end of an admin command. A Delete Queue drops the lock for the fence,
and posts its completion whether or not the fence held. -/
def finishAdmin (out : AdminOutcome) (sqHead : Nat) (cid : BitVec 16) :
    Prog NvmeState :=
  if out.fence then do
    step (.unlock out.st .plain)
    let held ← fenceWorkers
    step (.fenced held)
    let st ← step .lock
    let st := if held then st else st.failFence
    let st ← postAdmin st out.cdw0 sqHead cid out.status
    if held then do
      dropScope
      pure st
    else pure st
  else postAdmin out.st out.cdw0 sqHead cid out.status

/-- One pass of the loop in `admin_sq_doorbell`. -/
def adminRound (st : NvmeState) : Prog (NvmeState ⊕ NvmeState) :=
  match st.adminSq with
  | none => pure (.inr st)
  | some sq =>
    if sq.head = sq.tail then pure (.inr st)
    else do
      match ← readSqe sq with
      | none => pure (.inl { st with adminSq := some sq.skip })
      | some e => do
        step (.consume adminQueueId e)
        let out ← processAdminCmd { st with adminSq := some sq.skip } e
        let st ← finishAdmin out sq.skip.head e.cid
        pure (.inl st)

def adminSqDoorbell (newTail : Nat) : Prog Unit := do
  let st ← step .lock
  match st.adminSq with
  | none => step (.unlock st .plain)
  | some sq =>
    if newTail ≥ sq.size then step (.unlock st .plain)
    else do
      let st ← Proc.loop adminRound
        { st with adminSq := some { sq with tail := newTail } }
      step (.unlock st .plain)

-- ==== registers

def enable (newCc : BitVec 32) : Prog Unit := do
  let st ← step .lock
  let st := { st with cc := newCc }
  if st.fenceFailed then step (.unlock st.setFatal .plain)
  else do
    let asqs := asqs st.aqa
    let acqs := acqs st.aqa
    if ccSupported newCc ∧ 2 ≤ asqs ∧ 2 ≤ acqs then do
      if ← queueBaseOk st.asqBase asqs sqeSize then do
        if ← queueBaseOk st.acqBase acqs cqeSize then
          step (.unlock (st.bringUp asqs acqs) .plain)
        else step (.unlock st.setFatal .plain)
      else step (.unlock st.setFatal .plain)
    else step (.unlock st.setFatal .plain)

def disable (newCc : BitVec 32) : Prog Unit := do
  let st ← step .lock
  step (.unlock st.retireQueues .down)
  let fence ← fenceWorkers
  step .clearPending
  let st ← step .lock
  let st := { st with cc := newCc }
  if fence then do
    step (.unlock ({ st with csts := st.csts &&& ~~~cstsRdy }.setShst shstNormal) .plain)
    dropScope
  else step (.unlock st.failFence .plain)

def shutdown (newCc : BitVec 32) : Prog Unit := do
  let st ← step .lock
  step (.unlock ({ st with cc := newCc }.setShst shstOccurring).retireQueues .down)
  if ← fenceWorkers then do
    let flushed ← flushBacking
    let st ← step .lock
    if flushed then step (.unlock (st.setShst shstComplete) .plain)
    else step (.unlock st.setFatal .plain)
    dropScope
  else do
    let st ← step .lock
    step (.unlock st.failFence .plain)

def writeCc (newCc : BitVec 32) : Prog Unit := do
  let st ← step .lock
  step (.unlock st .plain)
  let oldCc := st.cc
  if ccShn newCc ≠ shstNormal ∧ ccShn oldCc = shstNormal then shutdown newCc
  else pure ()
  if ccEnabled oldCc ∧ ¬ ccEnabled newCc then disable newCc
  else if ¬ ccEnabled oldCc ∧ ccEnabled newCc then enable newCc
  else do
    let st ← step .lock
    step (.unlock { st with cc := newCc } .plain)

def writeAdminReg (r : AdminReg) : Prog Unit := do
  let st ← step .lock
  step (.unlock (st.setAdminReg r) .plain)

def guestCall : Call → Prog Unit
  | .sqDoorbell qid newTail =>
    if qid = adminQueueId then adminSqDoorbell newTail
    else ioSqDoorbell qid newTail
  | .cc newCc => writeCc newCc
  | .reg r => writeAdminReg r

/-- A vCPU: one exit after the other. -/
def vcpu : Prog Unit :=
  Proc.loop (fun _ : Unit => do
    let c ← step .begins
    guestCall c
    step .returns
    pure (.inl ())) ()

-- ==== migration

/-- The poll of `wait_all_quiesced`. -/
def waitAllQuiesced : Prog Bool :=
  Proc.loop (fun _ : Unit => do
    let n ← step .loadActive
    if n = 0 then pure (.inr true)
    else if ← step .expired then pure (.inr false)
    else pure (.inl ())) ()

/-- A controller that is not enabled has nothing to export. -/
def exportMigrateState : Prog (Option NvmeState) := do
  let st ← step .lock
  step (.unlock st .plain)
  pure (if ccEnabled st.cc then some st else none)

def resume : Prog Unit := do
  step .gateLock
  step (.setPaused false)
  step .gateUnlock

/-- The device's part of a migration that fails in the end, over and over:
pause and wait, stop the vCPUs, flush, export, and put everything back. -/
def migration : Prog Unit :=
  Proc.loop (fun _ : Unit => do
    step (.setPaused true)
    if ← waitAllQuiesced then do
      step .pauseVcpus
      if ← flushBacking then discard exportMigrateState else pure ()
      step .resumeVcpus
    else pure ()
    resume
    pure (.inl ())) ()

end Rshyve.Nvme
