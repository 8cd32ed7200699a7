/-
# The virtio-blk device

The kicks and the requests of `vmm-virtio/src/access.rs`, `block/access.rs`,
`block.rs` and `block/worker.rs`: every function is a program over the
atomic steps the source takes. One step is one atomic load or store, one
critical section of a lock that guards nothing but its own data, one
guest-memory access, one disk call. No step has a meaning here:
`Virtio.BlkData` gives each of them one over the bytes of guest memory and
of the disk.

A request whose ring was retired leaves its function with `Retired`, which
is the source's `None`. A lock guard is an explicit pair of steps.
-/
import Rshyve.Conc.Proc
import Rshyve.Virtio.BlkRequest

namespace Rshyve.Virtio.Blk

open Conc

-- ==== names

/-- The ring a piece of deferred work belongs to, and the generation it was
authorised under. -/
structure RingTag where
  queueIdx : Nat
  generation : Nat
  deriving DecidableEq, Repr

/-- A `VirtioCompletion`, by what it was built with. Its write index is in
the machine, under `id`. -/
structure Completion where
  id : Nat
  ring : Nat
  session : Nat
  deriving DecidableEq, Repr

/-- A request on its way to a worker. -/
structure BlkIoRequest where
  rtype : Nat
  sector : Nat
  chain : List ChainBuf
  head : Nat
  completion : Completion
  tag : RingTag
  deriving DecidableEq, Repr

/-- Permission held across one guest-memory access. -/
structure Session where
  tag : RingTag
  intr : Nat
  deriving DecidableEq, Repr

/-- One admitted backend operation. -/
structure Ticket where
  epoch : Nat
  writes : Bool
  deriving DecidableEq, Repr

/-- The request belongs to a ring that has been retired. -/
inductive Retired where
  | retired
  deriving DecidableEq, Repr

/-- Who asks whether sections are admitted. -/
inductive Asker where
  | tag (t : RingTag)
  | queue (q : Nat)
  deriving DecidableEq, Repr

/-- Guest-memory accesses on behalf of a ring. -/
inductive Touch where
  | collectChain (head : Nat)
  | header (addr : Nat)
  | status (chain : List ChainBuf) (status : Nat)
  | deviceId (addr len : Nat)
  | scatter (chain : List ChainBuf) (offset len : Nat)
  | gather (chain : List ChainBuf) (offset len : Nat)
  | payload (chain : List ChainBuf) (len : Nat)
  deriving DecidableEq, Repr

/-- What each access answers. -/
@[reducible] def TouchAns : Touch → Type
  | .collectChain _ => Option (List ChainBuf)
  | .header _ => Option VirtioBlkReqHdr
  | .status .. => Unit
  | .deviceId .. | .scatter .. | .gather .. => Bool
  | .payload .. => Option (List UInt8)

/-- Calls to the backing store. -/
inductive Disk where
  | read (offset len : Nat)
  | write (offset len : Nat)
  | sync
  | zero (ranges : List (Nat × Nat))
  deriving DecidableEq, Repr

-- ==== steps

/-- The atomic steps of a kick and of a request. -/
inductive Op where
  -- `GuestAccess`
  | loadOpen (asker : Asker)
  | loadGen (q : Nat)
  | loadIntr
  | readLock
  | readUnlock
  -- the used-ring writers
  | getCompletion (q session : Nat)
  | publishBatch (tag : RingTag) (c : Completion) (entries : List (Nat × Nat))
  -- the rings and the chains, under a session
  | popAvail (tag : RingTag)
  | queueSize (q : Nat)
  | lastAvail (q : Nat)
  | armEvent (tag : RingTag)
  | hasNewAvail (tag : RingTag)
  | touch (tag : RingTag) (x : Touch)
  -- the workers' channels
  | nextWorker (q : Nat)
  | sendReq (w : Nat) (r : BlkIoRequest)
  -- `BackendBarrier`
  | barrierLock
  | isCurrent (tag : RingTag)
  | barrierTry (tag : RingTag) (writes : Bool)
  | barrierUnlock
  | dropTicket (ticket : Ticket)
  | disk (d : Disk)
  deriving DecidableEq, Repr

/-- What each step answers. -/
@[reducible] def Ans : Op → Type
  | .loadOpen _ | .hasNewAvail _ | .publishBatch .. | .isCurrent _
  | .disk _ => Bool
  | .loadGen _ | .loadIntr | .queueSize _ | .lastAvail _
  | .nextWorker _ => Nat
  | .getCompletion .. => Completion
  | .popAvail _ | .barrierTry .. => Option Nat
  | .touch _ x => TouchAns x
  | _ => Unit

abbrev Prog := Proc Op Ans

/-- Code that gives up on a retired ring. -/
abbrev Live := ExceptT Retired Prog

abbrev call (o : Op) : Prog (Ans o) := Proc.call o

/-- What the device is built with. -/
structure Device where
  numQueues : Nat
  limits : DiskLimits
  deriving DecidableEq, Repr

/-- Eight workers on a single queue, two on each of several. -/
def Device.workersPerQueue (dev : Device) : Nat :=
  if dev.numQueues ≤ 1 then 8 else 2

section

variable (dev : Device)

-- ==== guest access

/-- `GuestAccess::enter`: permission for `tag`, refused while admission is
shut and once its queue has a newer generation. -/
def enter (tag : RingTag) : Live Session := ExceptT.mk do
  if ← call (.loadOpen (.tag tag)) then
    if tag.queueIdx < dev.numQueues then do
      call .readLock
      if ← call (.loadOpen (.tag tag)) then do
        let generation ← call (.loadGen tag.queueIdx)
        if generation = tag.generation then do
          let intr ← call .loadIntr
          pure (.ok ⟨tag, intr⟩)
        else do
          call .readUnlock
          pure (.error .retired)
      else do
        call .readUnlock
        pure (.error .retired)
    else pure (.error .retired)
  else pure (.error .retired)

/-- `GuestAccess::enter_current`: permission for the generation the queue
has now. -/
def enterCurrent (q : Nat) : Live Session := ExceptT.mk do
  if ← call (.loadOpen (.queue q)) then
    if q < dev.numQueues then do
      call .readLock
      if ← call (.loadOpen (.queue q)) then do
        let generation ← call (.loadGen q)
        let intr ← call .loadIntr
        pure (.ok ⟨⟨q, generation⟩, intr⟩)
      else do
        call .readUnlock
        pure (.error .retired)
    else pure (.error .retired)
  else pure (.error .retired)

-- ==== backend barrier

/-- `BackendBarrier::admit`. A waiter gives the lock up and tests again from
the start when it has it back. -/
def admitTicket (tag : RingTag) (writes : Bool) : Live Ticket := ExceptT.mk <|
  Proc.loop (fun _ : Unit => do
    call .barrierLock
    if ← call (.isCurrent tag) then do
      match ← call (.barrierTry tag writes) with
      | some epoch => pure (.inr (.ok ⟨epoch, writes⟩))
      | none => pure (.inl ())
    else do
      call .barrierUnlock
      pure (.inr (.error .retired))) ()

/-- One backend call under a ticket. -/
def underTicket (tag : RingTag) (writes : Bool) (d : Disk) : Live Bool := do
  let ticket ← admitTicket tag writes
  let ok ← ExceptT.lift (call (.disk d))
  ExceptT.lift (call (.dropTicket ticket))
  pure ok

/-- One guest-memory access under a session. -/
def underSession (tag : RingTag) (x : Touch) : Live (TouchAns x) := do
  let _ ← enter dev tag
  let a ← ExceptT.lift (call (.touch tag x))
  ExceptT.lift (call .readUnlock)
  pure a

-- ==== requests

/-- The status and the used length of a finished request. -/
abbrev Outcome := Nat × Nat

/-- One round of the loop of `read_request`. -/
def readRound (req : BlkIoRequest) (total base moved : Nat) : Live (Nat ⊕ Outcome) :=
  if moved < total then
    let n := min (total - moved) bounceBytes
    match Mem.checkedAdd base moved with
    | none => pure (.inr (blkSIoerr, 1))
    | some offset => do
      if ← underTicket req.tag false (.read offset n) then do
        if ← underSession dev req.tag (.scatter req.chain moved n) then
          pure (.inl (moved + n))
        else pure (.inr (blkSIoerr, 1))
      else pure (.inr (blkSIoerr, 1))
  else pure (.inr (blkSOk, min (total + 1) (2 ^ 32 - 1)))

/-- Read from the disk into host memory, then copy that into the guest. -/
def readRequest (req : BlkIoRequest) : Live Outcome :=
  match transfer req.chain true, sectorOffset req.sector with
  | some total, some base =>
    if total = 0 then pure (blkSOk, 1)
    else Proc.loopE (readRound dev req total base) 0
  | _, _ => pure (blkSIoerr, 1)

/-- One round of the loop of `write_request`. -/
def writeRound (req : BlkIoRequest) (total base moved : Nat) : Live (Nat ⊕ Outcome) :=
  if moved < total then do
    let n := min (total - moved) bounceBytes
    if ← underSession dev req.tag (.gather req.chain moved n) then
      match Mem.checkedAdd base moved with
      | none => pure (.inr (blkSIoerr, 1))
      | some offset => do
        if ← underTicket req.tag true (.write offset n) then
          pure (.inl (moved + n))
        else pure (.inr (blkSIoerr, 1))
    else pure (.inr (blkSIoerr, 1))
  else pure (.inr (blkSOk, 1))

/-- Snapshot the payload under permission, then write the snapshot. -/
def writeRequest (req : BlkIoRequest) : Live Outcome :=
  match transfer req.chain false, sectorOffset req.sector with
  | some total, some base =>
    if total = 0 then pure (blkSOk, 1)
    else Proc.loopE (writeRound dev req total base) 0
  | _, _ => pure (blkSIoerr, 1)

def flushRequest (req : BlkIoRequest) : Live Outcome := do
  if ← underTicket req.tag false .sync then pure (blkSOk, 1)
  else pure (blkSIoerr, 1)

/-- `discard::plan` under its session. -/
def discardPlan (req : BlkIoRequest) : Live Plan := do
  let _ ← enter dev req.tag
  let plan ← ExceptT.lift (match planBefore dev.limits req.rtype req.chain with
    | some status => pure (.settled status)
    | none =>
      match payloadLen req.chain with
      | none => pure (planPayload dev.limits req.rtype none)
      | some n => do
        let bytes ← call (.touch req.tag (.payload req.chain n))
        pure (planPayload dev.limits req.rtype bytes))
  ExceptT.lift (call .readUnlock)
  pure plan

def dwzRequest (req : BlkIoRequest) : Live Outcome := do
  match ← discardPlan dev req with
  | .settled status => pure (status, 1)
  | .zero ranges => do
    if ← underTicket req.tag true (.zero ranges) then pure (blkSOk, 1)
    else pure (blkSIoerr, 1)

/-- What a request does before its status is written. -/
def requestBody (req : BlkIoRequest) : Live Outcome :=
  if req.rtype = blkTIn then readRequest dev req
  else if req.rtype = blkTOut then
    if dev.limits.readOnly then pure (blkSIoerr, 1) else writeRequest dev req
  else if req.rtype = blkTFlush then flushRequest req
  else if req.rtype = blkTDiscard ∨ req.rtype = blkTWriteZeroes then
    dwzRequest dev req
  else pure (blkSUnsupp, 1)

/-- Run one request and return its used-ring entry. -/
def runRequest (req : BlkIoRequest) : Live (Nat × Nat) := do
  let (status, usedLen) ← requestBody dev req
  underSession dev req.tag (.status req.chain status)
  pure (req.head, usedLen)

-- ==== kicks

/-- `check_request`: the header, or the used length of a refused chain. -/
def checkRequest (tag : RingTag) (chain : List ChainBuf) : Prog (Except Nat VirtioBlkReqHdr) :=
  let refuse : Prog (Except Nat VirtioBlkReqHdr) := do
    call (.touch tag (.status chain blkSIoerr))
    pure (.error 1)
  if chain.length < 2 then refuse
  else match headerAddr chain with
    | none => refuse
    | some addr => do
      match ← call (.touch tag (.header addr)) with
      | none => refuse
      | some header =>
        if checkHeader dev.limits.capacity chain header then
          pure (.ok header)
        else refuse

/-- `local_request`: a request that touches guest memory and nothing
else. -/
def localRequest (tag : RingTag) (header : VirtioBlkReqHdr)
    (chain : List ChainBuf) : Prog Outcome :=
  if header.rtype = blkTGetId then
    match idBuffer chain with
    | none => pure (blkSIoerr, 1)
    | some (addr, n) => do
      if ← call (.touch tag (.deviceId addr n)) then pure (blkSOk, n + 1)
      else pure (blkSIoerr, 1)
  else pure (blkSUnsupp, 1)

/-- What one kick gathers: requests for the workers, and results that are
already finished. -/
structure Gathered where
  requests : List (Nat × VirtioBlkReqHdr × List ChainBuf)
  finished : List (Nat × Nat)
  deriving DecidableEq, Repr

/-- What `notify_queue` does with one head. -/
def takeHead (tag : RingTag) (head : Nat) (g : Gathered) : Prog Gathered := do
  match ← call (.touch tag (.collectChain head)) with
  | none => pure { g with finished := g.finished ++ [(head, 0)] }
  | some chain => do
    match ← checkRequest dev tag chain with
    | .error len => pure { g with finished := g.finished ++ [(head, len)] }
    | .ok header =>
      if needsBackend header.rtype then
        pure { g with requests := g.requests ++ [(head, header, chain)] }
      else do
        let (status, written) ← localRequest tag header chain
        call (.touch tag (.status chain status))
        pure { g with finished := g.finished ++ [(head, written)] }

/-- The inner loop of `drain_avail`: take heads until the ring is empty or
`n` more are taken. Returns how many are still allowed. -/
def popHeads (tag : RingTag) : Nat → Gathered → Prog (Nat × Gathered)
  | 0, g => pure (0, g)
  | n + 1, g => do
    match ← call (.popAvail tag) with
    | none => pure (n + 1, g)
    | some head => do
      let g ← takeHead dev tag head g
      popHeads tag n g

/-- `drain_avail` with `queue_drain_should_stop`. -/
def drainAvail (tag : RingTag) (max : Nat) : Prog Gathered :=
  Proc.loop (fun (s : Nat × Gathered) => do
    let before ← call (.lastAvail tag.queueIdx)
    let (left, g) ← popHeads dev tag s.1 s.2
    call (.armEvent tag)
    let now ← call (.lastAvail tag.queueIdx)
    if now = before ∨ left = 0 then pure (.inr g)
    else do
      if ← call (.hasNewAvail tag) then pure (.inl (left, g))
      else pure (.inr g)) (max, ⟨[], []⟩)

/-- Hand a request to one of the queue's workers, round robin. -/
def dispatch (tag : RingTag) (c : Completion) (head : Nat)
    (header : VirtioBlkReqHdr) (chain : List ChainBuf) : Prog Unit := do
  let n ← call (.nextWorker tag.queueIdx)
  call (.sendReq (tag.queueIdx * dev.workersPerQueue + n % dev.workersPerQueue)
    ⟨header.rtype, header.sector, chain, head, c, tag⟩)

/-- `notify_queue`: pop available chains, run or dispatch each one, and
complete them. The answer asks the transport for an interrupt. -/
def notifyQueue (q : Nat) : Prog Bool := do
  match ← (enterCurrent dev q).run with
  | .error _ => pure false
  | .ok session => do
    let c ← call (.getCompletion q session.intr)
    let max ← call (.queueSize q)
    let g ← drainAvail dev session.tag max
    let raise ← call (.publishBatch session.tag c g.finished)
    call .readUnlock
    g.requests.forM fun (head, header, chain) =>
      dispatch dev session.tag c head header chain
    pure raise

end

end Rshyve.Virtio.Blk
