/-
# NVMe queues

The queue records of `vmm-storage/src/nvme/queues.rs`, the controller state
they live in, and the parts of `io.rs`, `admin.rs` and `regs.rs` that only
compute on them. Everything here runs under the controller's state lock.

A queue has an instance number of its own (`QueueInstance`, a number here).
The driver can delete a queue and create another in the same slot, and a
request names the instances it was submitted against (`queuesCurrent`).

The Identify data, the capability register and the PCI header are left out.
-/
import Rshyve.Mem.PhysMap

namespace Rshyve.Nvme

-- ==== constants

abbrev maxIoQueues : Nat := 15
def maxQueueSize : Nat := 4096
def adminQueueId : Nat := 0
def nvmeMsixCount : Nat := 17
def maxXferBytes : Nat := 512 * 4096
def sqeSize : Nat := 64
def cqeSize : Nat := 16

def ccEn : BitVec 32 := 1#32
def cstsRdy : BitVec 32 := 1#32
def cstsCfs : BitVec 32 := 2#32
def shstNormal : BitVec 32 := 0#32
def shstOccurring : BitVec 32 := 1#32
def shstComplete : BitVec 32 := 2#32

def scSuccess : BitVec 16 := 0x0000#16
def scInvalidOpcode : BitVec 16 := 0x0001#16
def scInvalidField : BitVec 16 := 0x0002#16
def scDataXferError : BitVec 16 := 0x0004#16
def scInternalError : BitVec 16 := 0x0006#16
def scInvalidNs : BitVec 16 := 0x000B#16
def scWriteToRoRange : BitVec 16 := 0x0082#16
def scCqInvalid : BitVec 16 := 0x0100#16
def scInvalidQueueId : BitVec 16 := 0x0101#16
def scInvalidQueueSize : BitVec 16 := 0x0102#16
def scInvalidIntrVector : BitVec 16 := 0x0108#16
def scInvalidLogPage : BitVec 16 := 0x0109#16
def scDnr : BitVec 16 := 0x4000#16

-- ==== queues

structure SubQueue where
  base : BitVec 64
  size : Nat
  head : Nat
  tail : Nat
  cqId : Nat
  inst : Nat
  deriving DecidableEq, Repr

structure CompQueue where
  base : BitVec 64
  size : Nat
  head : Nat
  tail : Nat
  phase : Bool
  iv : Nat
  ien : Bool
  inst : Nat
  deriving DecidableEq, Repr

def ioQueueIndex (qid : Nat) : Option (Fin maxIoQueues) :=
  if h : 1 ≤ qid ∧ qid - 1 < maxIoQueues then some ⟨qid - 1, h.2⟩ else none

structure NvmeState where
  cc : BitVec 32
  csts : BitVec 32
  aqa : BitVec 32
  asqBase : BitVec 64
  acqBase : BitVec 64
  adminSq : Option SubQueue
  adminCq : Option CompQueue
  ioSqs : Fin maxIoQueues → Option SubQueue
  ioCqs : Fin maxIoQueues → Option CompQueue
  numIoQueues : Nat
  instances : Nat
  fenceFailed : Bool

namespace NvmeState

/-- A controller that has just been built. -/
def new : NvmeState :=
  ⟨0, 0, 0, 0, 0, none, none, fun _ => none, fun _ => none, maxIoQueues, 0, false⟩

def retireQueues (st : NvmeState) : NvmeState :=
  { st with
    adminSq := none, adminCq := none
    ioSqs := fun _ => none, ioCqs := fun _ => none }

def setFatal (st : NvmeState) : NvmeState :=
  { st with csts := st.csts ||| cstsCfs }

def failFence (st : NvmeState) : NvmeState :=
  { st.setFatal with fenceFailed := true }

def setShst (st : NvmeState) (shst : BitVec 32) : NvmeState :=
  { st with csts := (st.csts &&& ~~~(3#32 <<< 2)) ||| (shst <<< 2) }

end NvmeState

-- ==== commands

/-- A submission queue entry: the fields the controller reads. -/
structure Sqe where
  opcode : BitVec 8
  cid : BitVec 16
  nsid : BitVec 32
  prp1 : BitVec 64
  prp2 : BitVec 64
  cdw10 : BitVec 32
  cdw11 : BitVec 32
  cdw12 : BitVec 32
  deriving DecidableEq, Repr

/-- One NVM command handed to a worker. -/
structure IoRequest where
  opcode : BitVec 8
  nsid : BitVec 32
  slba : Nat
  nlb : Nat
  prp1 : BitVec 64
  prp2 : BitVec 64
  sqid : Nat
  cid : BitVec 16
  cqId : Nat
  sqInstance : Nat
  cqInstance : Nat
  fua : Bool
  deriving DecidableEq, Repr

/-- What `io_sq_doorbell` makes of an entry of queue `qid`. -/
def Sqe.request (e : Sqe) (qid cqId sqInstance cqInstance : Nat) :
    IoRequest where
  opcode := e.opcode
  nsid := e.nsid
  slba := e.cdw10.toNat + e.cdw11.toNat * 2 ^ 32
  nlb := (e.cdw12 &&& 0xFFFF#32).toNat + 1
  prp1 := e.prp1
  prp2 := e.prp2
  sqid := qid
  cid := e.cid
  cqId := cqId
  sqInstance := sqInstance
  cqInstance := cqInstance
  fua := e.cdw12.getLsbD 30

/-- The queues a request names are still the ones the driver has. -/
def queuesCurrent (st : NvmeState) (req : IoRequest) : Bool :=
  let sqLive := ((ioQueueIndex req.sqid).bind st.ioSqs).any fun sq => sq.inst == req.sqInstance
  let cqLive := ((ioQueueIndex req.cqId).bind st.ioCqs).any fun cq => cq.inst == req.cqInstance
  sqLive && cqLive

-- ==== completions

/-- A completion queue entry. -/
structure Cqe where
  dw0 : BitVec 32
  sqHead : Nat
  sqid : Nat
  cid : BitVec 16
  status : BitVec 16
  deriving DecidableEq, Repr

/-- Bit 0 of the status field is the phase tag. -/
def Cqe.withPhase (status : BitVec 16) (phase : Bool) : BitVec 16 :=
  (status <<< 1) ||| (if phase then 1#16 else 0#16)

namespace CompQueue

def nextTail (cq : CompQueue) : Nat :=
  if cq.size ≤ cq.tail + 1 then 0 else cq.tail + 1

/-- Past the entry just written. -/
def advance (cq : CompQueue) : CompQueue :=
  if cq.size ≤ cq.tail + 1 then { cq with tail := 0, phase := !cq.phase }
  else { cq with tail := cq.tail + 1 }

/-- Set by the guest through the doorbell. -/
def setHead (cq : CompQueue) (newHead : Nat) : CompQueue :=
  if newHead < cq.size then { cq with head := newHead } else cq

end CompQueue

/-- The head doorbell of completion queue `qid`. -/
def cqDoorbell (st : NvmeState) (qid newHead : Nat) : NvmeState :=
  if qid = adminQueueId then
    { st with adminCq := st.adminCq.map (·.setHead newHead) }
  else match ioQueueIndex qid with
    | none => st
    | some i => { st with
        ioCqs := Function.update st.ioCqs i ((st.ioCqs i).map (·.setHead newHead)) }

-- ==== admin commands

/-- `valid_queue_base`: page aligned, and not zero. -/
def validQueueBase (base : BitVec 64) : Bool :=
  base != 0#64 && base &&& 0xFFF#64 == 0#64

/-- `queue_base_ok` without the lookup. -/
def queueSpanOk (base : BitVec 64) (entries entry : Nat) : Bool :=
  validQueueBase base && (Mem.checkedAdd base.toNat (entries * entry)).isSome

/-- The low or the high half of a double word, as a number. -/
def lo16 (w : BitVec 32) : Nat := (w &&& 0xFFFF#32).toNat
def hi16 (w : BitVec 32) : Nat := (w >>> 16).toNat

/-- The checks of Create I/O Completion Queue up to the queue's base. -/
def checkCreateIoCq (st : NvmeState) (cdw10 cdw11 : BitVec 32) :
    Except (BitVec 16) (Fin maxIoQueues) :=
  match ioQueueIndex (lo16 cdw10) with
  | none => .error (scInvalidQueueId ||| scDnr)
  | some idx =>
    let qsize := hi16 cdw10 + 1
    if lo16 cdw10 > st.numIoQueues then
      .error (scInvalidQueueId ||| scDnr)
    else if qsize < 2 ∨ qsize > maxQueueSize then
      .error (scInvalidQueueSize ||| scDnr)
    else if (st.ioCqs idx).isSome then
      .error (scInvalidQueueId ||| scDnr)
    else if hi16 cdw11 ≥ nvmeMsixCount then
      .error (scInvalidIntrVector ||| scDnr)
    else .ok idx

/-- The checks of Create I/O Submission Queue up to the queue's base. -/
def checkCreateIoSq (st : NvmeState) (cdw10 cdw11 : BitVec 32) :
    Except (BitVec 16) (Fin maxIoQueues) :=
  match ioQueueIndex (lo16 cdw10) with
  | none => .error (scInvalidQueueId ||| scDnr)
  | some idx =>
    let qsize := hi16 cdw10 + 1
    if lo16 cdw10 > st.numIoQueues then
      .error (scInvalidQueueId ||| scDnr)
    else if qsize < 2 ∨ qsize > maxQueueSize then
      .error (scInvalidQueueSize ||| scDnr)
    else if (st.ioSqs idx).isSome then
      .error (scInvalidQueueId ||| scDnr)
    else match ioQueueIndex (hi16 cdw11) with
      | none => .error (scCqInvalid ||| scDnr)
      | some cqIdx =>
        if (st.ioCqs cqIdx).isNone then .error (scCqInvalid ||| scDnr)
        else .ok idx

namespace NvmeState

def createIoCq (st : NvmeState) (idx : Fin maxIoQueues) (prp1 : BitVec 64)
    (cdw10 cdw11 : BitVec 32) : NvmeState :=
  { st with
    instances := st.instances + 1
    ioCqs := Function.update st.ioCqs idx (some
      { base := prp1, size := hi16 cdw10 + 1, head := 0, tail := 0
        phase := true, iv := hi16 cdw11, ien := cdw11.getLsbD 1
        inst := st.instances + 1 }) }

def createIoSq (st : NvmeState) (idx : Fin maxIoQueues) (prp1 : BitVec 64)
    (cdw10 cdw11 : BitVec 32) : NvmeState :=
  { st with
    instances := st.instances + 1
    ioSqs := Function.update st.ioSqs idx (some
      { base := prp1, size := hi16 cdw10 + 1, head := 0, tail := 0
        cqId := hi16 cdw11, inst := st.instances + 1 }) }

def deleteIoSq (st : NvmeState) (idx : Fin maxIoQueues) : NvmeState :=
  { st with ioSqs := Function.update st.ioSqs idx none }

def deleteIoCq (st : NvmeState) (idx : Fin maxIoQueues) : NvmeState :=
  { st with ioCqs := Function.update st.ioCqs idx none }

/-- The two admin queues of an enabled controller. -/
def bringUp (st : NvmeState) (asqs acqs : Nat) : NvmeState :=
  { st with
    instances := st.instances + 2
    adminSq := some
      { base := st.asqBase, size := asqs, head := 0, tail := 0
        cqId := adminQueueId, inst := st.instances + 1 }
    adminCq := some
      { base := st.acqBase, size := acqs, head := 0, tail := 0
        phase := true, iv := 0, ien := true
        inst := st.instances + 2 }
    csts := (st.csts &&& ~~~cstsCfs) ||| cstsRdy }

end NvmeState

/-- Delete I/O Submission Queue: the slot to empty. -/
def checkDeleteIoSq (st : NvmeState) (cdw10 : BitVec 32) :
    Except (BitVec 16) (Fin maxIoQueues) :=
  match ioQueueIndex (lo16 cdw10) with
  | none => .error (scInvalidQueueId ||| scDnr)
  | some idx =>
    if (st.ioSqs idx).isNone then .error (scInvalidQueueId ||| scDnr)
    else .ok idx

/-- Delete I/O Completion Queue. A queue that a submission queue still names
cannot be deleted. -/
def checkDeleteIoCq (st : NvmeState) (cdw10 : BitVec 32) :
    Except (BitVec 16) (Fin maxIoQueues) :=
  match ioQueueIndex (lo16 cdw10) with
  | none => .error (scInvalidQueueId ||| scDnr)
  | some idx =>
    if (st.ioCqs idx).isNone then .error (scInvalidQueueId ||| scDnr)
    else if (List.finRange maxIoQueues).any fun i =>
        (st.ioSqs i).any fun sq => sq.cqId == lo16 cdw10 then
      .error (scInvalidQueueId ||| scDnr)
    else .ok idx

/-- The features that are accepted and have no effect. -/
def featStored : List Nat := [0x01, 0x02, 0x04, 0x05, 0x08, 0x09, 0x0A, 0x0B]
def featVolatileWc : Nat := 0x06
def featNumQueues : Nat := 0x07

def adminGetFeatures (st : NvmeState) (cdw10 : BitVec 32) : BitVec 16 × BitVec 32 :=
  let fid := (cdw10 &&& 0xFF#32).toNat
  if fid = featNumQueues then
    let nq := BitVec.ofNat 32 (st.numIoQueues - 1)
    (scSuccess, nq ||| (nq <<< 16))
  else if fid = featVolatileWc then (scSuccess, 1)
  else if fid ∈ featStored then (scSuccess, 0)
  else (scInvalidField ||| scDnr, 0)

def adminSetFeatures (st : NvmeState) (cdw10 cdw11 : BitVec 32) :
    NvmeState × BitVec 16 × BitVec 32 :=
  let fid := (cdw10 &&& 0xFF#32).toNat
  if fid = featNumQueues then
    let allocSq := min (lo16 cdw11 + 1) maxIoQueues
    let allocCq := min (hi16 cdw11 + 1) maxIoQueues
    ({ st with numIoQueues := min allocSq allocCq }, scSuccess,
      BitVec.ofNat 32 (allocSq - 1) ||| (BitVec.ofNat 32 (allocCq - 1) <<< 16))
  else if fid = featVolatileWc ∨ fid ∈ featStored then (st, scSuccess, 0)
  else (st, scInvalidField ||| scDnr, 0)

-- ==== registers

/-- The configuration `enable` can honour: entry sizes unset or the required
ones, 4 KiB pages, the NVM command set, round robin. -/
def ccSupported (cc : BitVec 32) : Bool :=
  let iosqes := (cc >>> 16) &&& 0xF#32
  let iocqes := (cc >>> 20) &&& 0xF#32
  (iosqes == 0#32 || iosqes == 6#32) && (iocqes == 0#32 || iocqes == 4#32) &&
    (cc >>> 7) &&& 0xF#32 == 0#32 && (cc >>> 4) &&& 0x7#32 == 0#32 &&
    (cc >>> 11) &&& 0x7#32 == 0#32

def ccEnabled (cc : BitVec 32) : Bool := cc &&& ccEn != 0#32
def ccShn (cc : BitVec 32) : BitVec 32 := (cc >>> 14) &&& 3#32

def asqs (aqa : BitVec 32) : Nat := (aqa &&& 0xFFF#32).toNat + 1
def acqs (aqa : BitVec 32) : Nat := ((aqa >>> 16) &&& 0xFFF#32).toNat + 1

/-- The registers that describe the admin queues. Each is writable while
the controller is disabled. -/
inductive AdminReg where
  | aqa (v : BitVec 32)
  | asqLow (v : BitVec 32)
  | asqHigh (v : BitVec 32)
  | asq (v : BitVec 64)
  | acqLow (v : BitVec 32)
  | acqHigh (v : BitVec 32)
  | acq (v : BitVec 64)

def setLow (r : BitVec 64) (v : BitVec 32) : BitVec 64 :=
  (r &&& 0xFFFFFFFF00000000#64) ||| v.zeroExtend 64

def setHigh (r : BitVec 64) (v : BitVec 32) : BitVec 64 :=
  (r &&& 0x00000000FFFFFFFF#64) ||| (v.zeroExtend 64 <<< 32)

def NvmeState.setAdminReg (st : NvmeState) (r : AdminReg) : NvmeState :=
  if ccEnabled st.cc then st
  else match r with
    | .aqa v => { st with aqa := v }
    | .asqLow v => { st with asqBase := setLow st.asqBase v }
    | .asqHigh v => { st with asqBase := setHigh st.asqBase v }
    | .asq v => { st with asqBase := v }
    | .acqLow v => { st with acqBase := setLow st.acqBase v }
    | .acqHigh v => { st with acqBase := setHigh st.acqBase v }
    | .acq v => { st with acqBase := v }

end Rshyve.Nvme
