/-
# virtio-blk over bytes

`vmm-virtio/src/block/io.rs`, with `zero` and `read_payload` of
`block/discard.rs`: what the accesses of the device's programs
(`Virtio.Block`) do to guest memory, to the backing store and to the worker's
bounce buffer. `perform` gives every operation of those programs a meaning
over bytes, and the programs run here one at a time (`Conc.Alone`).

What guest memory and the disk do not decide is in the `Fates`: the
answers of the locks and latches, whether a backend call fails, and how much
of a call that fails reaches the disk.

# What is recorded

Every head taken from the available ring opens a `Deed`: the chain that was
collected for it, the guest ranges the device wrote for it, and the status it
was given. `reached` is every range of the backing store a call named, `used`
and `sent` the entries handed to the used ring and the requests handed to the
workers.
-/
import Rshyve.Conc.Alone
import Rshyve.Virtio.Block
import Rshyve.Virtio.Pci.Chain
import Rshyve.Virtio.Pci.Drain
import Rshyve.Virtio.UsedIndex

namespace Rshyve.Virtio.Blk

open Conc Rshyve.Mem

-- ==== windows

section

variable {σ : Type}

/-- The loop of `walk_window`, at byte `start` of the request: the bytes it
covered, or nothing if it gave up. -/
def walkFrom (writable : Bool) (offset stop : Nat) (visit : Nat → Nat → Nat → σ → σ × Bool) :
    Nat → Nat → List ChainBuf → σ → σ × Option Nat
  | _, covered, [], s => (s, some covered)
  | start, covered, b :: bs, s =>
    if b.isWritable ≠ writable then
      walkFrom writable offset stop visit start covered bs s
    else match checkedAdd start b.len with
      | none => (s, none)
      | some fin =>
        if fin ≤ offset ∨ start ≥ stop then
          walkFrom writable offset stop visit fin covered bs s
        else
          let lo := max offset start
          let hi := min stop fin
          if hi = lo then
            walkFrom writable offset stop visit fin covered bs s
          else match checkedAdd b.addr (lo - start) with
            | none => (s, none)
            | some gpa =>
              match visit gpa (lo - offset) (hi - lo) s with
              | (s, false) => (s, none)
              | (s, true) =>
                walkFrom writable offset stop visit fin (covered + (hi - lo)) bs s

/-- Run `visit` over the part of each matching data segment that falls in
the window of `len` bytes at `offset` of the request. -/
def walkWindow (chain : List ChainBuf) (writable : Bool) (offset len : Nat)
    (visit : Nat → Nat → Nat → σ → σ × Bool) (s : σ) : σ × Bool :=
  match checkedAdd offset len, dataSegments chain with
  | some stop, some data =>
    let r := walkFrom writable offset stop visit 0 0 data s
    (r.1, r.2 == some len)
  | _, _ => (s, false)

end

/-- Guest memory, and the ranges of it the device wrote, newest first. -/
structure Target where
  mem : GuestMem
  writes : List (Nat × Nat)

namespace Target

/-- `physmap.lookup(gpa, len)` and a bulk copy into the view. -/
def put (t : Target) (gpa : Nat) (data : List UInt8) : Target × Bool :=
  if lands t.mem.space gpa data.length then
    (⟨{ t.mem with bytes := poke t.mem.bytes gpa data }, (gpa, data.length) :: t.writes⟩, true)
  else (t, false)

/-- Copy `len` bytes of `buf` into the chain's writable data segments,
`offset` bytes into the request. -/
def scatter (t : Target) (chain : List ChainBuf) (offset len : Nat)
    (buf : Nat → UInt8) : Target × Bool :=
  walkWindow chain true offset len (fun gpa at' n t => t.put gpa (peek buf at' n)) t

/-- A status byte that fails to land has no recovery path. -/
def writeStatus (t : Target) (chain : List ChainBuf) (status : Nat) : Target :=
  match chain.getLast? with
  | some (.writable addr len) =>
    if len ≥ 1 then (t.put addr [UInt8.ofNat status]).1 else t
  | _ => t

end Target

/-- Whether a `read_bytes` of `len` bytes succeeds. -/
def yields (s : AddressSpace) (gpa len : Nat) : Bool :=
  match s.lookup gpa len with
  | none => false
  | some v => (GuestMem.checkRead v len).isOk

/-- Copy `len` bytes of the chain's readable data segments into `buf`,
`offset` bytes into the request. -/
def gather (m : GuestMem) (chain : List ChainBuf) (offset len : Nat)
    (buf : Nat → UInt8) : (Nat → UInt8) × Bool :=
  walkWindow chain false offset len (fun gpa at' n buf =>
      if yields m.space gpa n then (poke buf at' (peek m.bytes gpa n), true)
      else (buf, false)) buf

/-- The copy loop of `read_payload`, over data buffers that are all
readable. -/
def readPayload (m : GuestMem) : List ChainBuf → Option (List UInt8)
  | [] => some []
  | b :: bs =>
    if yields m.space b.addr b.len then
      (readPayload m bs).map (peek m.bytes b.addr b.len ++ ·)
    else none

/-- A request header out of guest memory. -/
def loadHeader (m : GuestMem) (addr : Nat) : Option VirtioBlkReqHdr :=
  (m.load addr blkReqHeaderSize 8).map fun bs =>
    ⟨Bytes.ofLe (bs.take 4), Bytes.ofLe (bs.drop 8)⟩

/-- `device_id`: "vmm-virtio-blk", filled up with zeros. -/
def deviceId : List UInt8 :=
  [118, 109, 109, 45, 118, 105, 114, 116, 105, 111, 45, 98, 108, 107] ++ List.replicate 6 0

-- ==== the bytes of a chain

/-- The guest addresses of the data segments of one direction, byte by byte
in chain order. -/
def addrsOf (writable : Bool) : List ChainBuf → List Nat
  | [] => []
  | b :: bs =>
    if b.isWritable = writable then
      List.range' b.addr b.len ++ addrsOf writable bs
    else addrsOf writable bs

def dataAddrs (chain : List ChainBuf) (writable : Bool) : List Nat :=
  addrsOf writable ((dataSegments chain).getD [])

/-- The data segments of one direction, put one behind the other. -/
def segmentBytes (bytes : Nat → UInt8) (chain : List ChainBuf) (writable : Bool) : List UInt8 :=
  (((dataSegments chain).getD []).filter (·.isWritable == writable)).flatMap
    fun b => peek bytes b.addr b.len

/-- Where the status byte goes, if the chain has a place for it. -/
def statusAddr (chain : List ChainBuf) : Option Nat :=
  match chain.getLast? with
  | some (.writable addr len) => if len ≥ 1 then some addr else none
  | _ => none

/-- The chain has a place for the status byte, and guest memory takes it. -/
def statusLands (s : AddressSpace) (chain : List ChainBuf) : Bool :=
  (statusAddr chain).any fun addr => lands s addr 1

/-- A range inside one of the chain's writable buffers. -/
def within (chain : List ChainBuf) (w : Nat × Nat) : Bool :=
  chain.any fun b => b.isWritable && decide (b.addr ≤ w.1) && decide (w.1 + w.2 ≤ b.addr + b.len)

/-- The bytes of the ranges that lie in the chain's writable buffers. -/
def wroteInto (chain : List ChainBuf) (writes : List (Nat × Nat)) : Nat :=
  ((writes.filter (within chain)).map Prod.snd).sum

-- ==== the state

/-- The backing store: what it holds, and where it ends. -/
structure Store where
  bytes : Nat → UInt8
  size : Nat

/-- What the surroundings decide, call by call. -/
structure Fates where
  /-- the answer an operation gets -/
  answer : Nat → (o : Op) → Ans o
  /-- the bytes a backend call that fails has moved -/
  cut : Nat → Nat

/-- What the device did for one head. -/
structure Deed where
  head : Nat
  chain : Option (List ChainBuf)
  writes : List (Nat × Nat)
  status : Option Nat
  deriving DecidableEq, Repr

/-- What the programs work on, and what is recorded of it. -/
structure View where
  mem : GuestMem
  file : Store
  bounce : Nat → UInt8
  queues : Nat → Pci.VirtQueue
  writers : Nat → Option Pci.VirtioCompletion
  deeds : List Deed
  reached : List (Nat × Nat)
  used : List (Nat × Nat)
  sent : List BlkIoRequest

structure Data extends View where
  fates : Fates
  clock : Nat

/-- The head a request of a worker belongs to. -/
def Data.serving (s : Data) (req : BlkIoRequest) : Data :=
  { s with deeds := ⟨req.head, some req.chain, [], none⟩ :: s.deeds }

-- ==== guest memory

namespace View

/-- Note something of the head the device is at. -/
def note (v : View) (f : Deed → Deed) : View :=
  match v.deeds with
  | [] => v
  | d :: ds => { v with deeds := f d :: ds }

/-- A guest-memory access that writes, and what it wrote. -/
def writing (v : View) {α : Type} (access : Target → Target × α) : α × View :=
  let r := access ⟨v.mem, []⟩
  (r.2, { v with mem := r.1.mem }.note fun d =>
    { d with writes := r.1.writes ++ d.writes })

/-- An access to the chains of queue `i`. -/
def touch (v : View) (i : Nat) : (x : Touch) → TouchAns x × View
  | .collectChain head =>
    let chain := (v.queues i).collectChain v.mem (BitVec.ofNat 16 head)
    (chain, v.note fun d => { d with chain := chain })
  | .header addr => (loadHeader v.mem addr, v)
  | .status chain status =>
    ((), (v.writing fun t => (t.writeStatus chain status, ())).2.note
      fun d => { d with status := some status })
  | .deviceId addr len => v.writing fun t => t.put addr (deviceId.take len)
  | .scatter chain offset len =>
    v.writing fun t => t.scatter chain offset len v.bounce
  | .gather chain offset len =>
    let r := gather v.mem chain offset len v.bounce
    (r.2, { v with bounce := r.1 })
  | .payload chain _ =>
    ((dataSegments chain).bind (readPayload v.mem), v)

/-- Take the next head, and open its deed. -/
def popAvail (v : View) (i : Nat) : Option Nat × View :=
  match (v.queues i).popAvail v.mem with
  | (q, none) => (none, { v with queues := Function.update v.queues i q })
  | (q, some head) =>
    (some head.toNat, { v with
      queues := Function.update v.queues i q
      deeds := ⟨head.toNat, none, [], none⟩ :: v.deeds })

/-- The queue's used-ring writer, made on first use. The first completions
interrupt in any case. -/
def getCompletion (v : View) (i : Nat) : View :=
  match v.writers i with
  | some _ => v
  | none => { v with
      writers := Function.update v.writers i (some ((Pci.VirtioCompletion.new (v.queues i) v.mem
          ).setForceInterrupt 32)) }

/-- `publish_batch` of the queue's writer. -/
def publishBatch (v : View) (i : Nat) (entries : List (Nat × Nat)) :
    Bool × View :=
  let c := (v.writers i).getD (.new (v.queues i) v.mem)
  match c.publishBatch v.mem (entries.map fun e =>
      (BitVec.ofNat 16 e.1, BitVec.ofNat 32 e.2)) with
  | none => (false, v)
  | some (oldIdx, c, mem) =>
    let w := c.shouldInterrupt mem oldIdx c.writeIdx
    (w.2, { v with
      mem := mem
      writers := Function.update v.writers i (some w.1)
      used := v.used ++ entries })

end View

-- ==== the backing store

namespace Data

def tick (s : Data) : Data := { s with clock := s.clock + 1 }

/-- `read_exact_at`. End of file short of the range is a failure. -/
def readBackend (s : Data) (offset len : Nat) : Bool × Data :=
  let ok := s.fates.answer s.clock (.disk (.read offset len)) && decide (offset + len ≤ s.file.size)
  let n := if ok then len else min len (s.fates.cut s.clock)
  (ok, { s with
    bounce := poke s.bounce 0 (peek s.file.bytes offset n)
    reached := (offset, len) :: s.reached }.tick)

/-- `write_all_at`. A call that fails has written a part of the data. -/
def writeBackend (s : Data) (offset : Nat) (data : List UInt8) : Bool × Data :=
  let ok := s.fates.answer s.clock (.disk (.write offset data.length))
  let part := if ok then data else data.take (s.fates.cut s.clock)
  (ok, { s with
    file := ⟨poke s.file.bytes offset part, max s.file.size (offset + part.length)⟩
    reached := (offset, data.length) :: s.reached }.tick)

/-- Bytes of one `pwrite` of zeros. -/
def zeroChunk : Nat := 128 * 1024

/-- The loop of `write_zero_range`. -/
def zeroFrom (s : Data) (offset remaining : Nat) : Bool × Data :=
  if remaining = 0 then (true, s)
  else
    let chunk := min remaining zeroChunk
    if offset ≥ 2 ^ 63 then (false, s)
    else match s.writeBackend offset (List.replicate chunk 0) with
      | (false, s) => (false, s)
      | (true, s) => zeroFrom s (offset + chunk) (remaining - chunk)
termination_by remaining
decreasing_by
  have : 0 < zeroChunk := by decide
  omega

/-- Write zeros over `numSectors` sectors starting at `sector`. -/
def writeZeroRange (s : Data) (sector numSectors : Nat) : Bool × Data :=
  if sector * sectorSize < 2 ^ 64 ∧ numSectors * sectorSize < 2 ^ 64 then
    s.zeroFrom (sector * sectorSize) (numSectors * sectorSize)
  else (false, s)

/-- Zero every range a plan named, up to the first one that fails. -/
def zero (s : Data) : List (Nat × Nat) → Bool × Data
  | [] => (true, s)
  | (sector, numSectors) :: rest =>
    match s.writeZeroRange sector numSectors with
    | (false, s) => (false, s)
    | (true, s) => zero s rest

/-- A call to the backing store. Only reads and writes move data. -/
def call (s : Data) : Disk → Bool × Data
  | .read offset len => s.readBackend offset len
  | .write offset len => s.writeBackend offset (peek s.bounce 0 len)
  | .sync => (s.fates.answer s.clock (.disk .sync), s.tick)
  | .zero ranges => s.zero ranges

end Data

-- ==== the meaning

/-- An access that asks nothing of the surroundings. -/
def Data.lift {α : Type} (s : Data) (r : α × View) : α × Data :=
  (r.1, { s with toView := r.2 })

/-- What an operation answers and does, over bytes. -/
def perform : Handler Op Ans Data
  | .touch tag x, s => s.lift (s.touch tag.queueIdx x)
  | .disk d, s => s.call d
  | .popAvail tag, s => s.lift (s.popAvail tag.queueIdx)
  | .queueSize i, s => ((s.queues i).size.toNat, s)
  | .lastAvail i, s => ((s.queues i).lastAvailIdx.toNat, s)
  | .armEvent tag, s =>
    ((), { s with mem := (s.queues tag.queueIdx).updateUsedEvent s.mem })
  | .hasNewAvail tag, s =>
    ((s.queues tag.queueIdx).hasNewAvail s.mem, s)
  | .getCompletion i session, s =>
    (s.fates.answer s.clock (.getCompletion i session),
      ({ s with toView := s.getCompletion i } : Data).tick)
  | .publishBatch tag _ entries, s =>
    s.lift (s.publishBatch tag.queueIdx entries)
  | .sendReq _ req, s => ((), { s with sent := s.sent ++ [req] })
  | o, s => (s.fates.answer s.clock o, s.tick)

end Rshyve.Virtio.Blk
