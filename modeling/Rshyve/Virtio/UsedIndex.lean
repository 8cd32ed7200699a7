/-
# The used index of a software queue, and the one an export carries

`vmm-virtio/src/queue.rs` (`push_used`, `read_used_ring_idx`) and
`queue/completion.rs` over the bytes of guest memory. A queue served in line
moves the queue's shadow index and stores it in the used ring; a queue served
through a `VirtioCompletion` keeps the index in that handler and never moves
the shadow. The export (`Transport.cursors`) reads guest memory and falls
back to the shadow where memory says zero.

# The history of one queue

`SoftQueue` is a queue, the memory and the handler the device has built for
the ring. An `QueueEvent` is a register write that reaches the queue, the restore
of a migration on a fresh device, a kick, the building of the handler, a
completion, or `memory`: whatever else writes guest memory, from the driver
to the pages of a migration. Programming a ring drops the handler
(`queue_addr_set`); a refused one leaves it.

# What holds

The export is right in a state where memory's zero is also the shadow's
(`Settled`). Every event keeps that when it does not bring a zero under a
shadow that is not zero (`keepsZero`). A wrap of the handler's index after a
restore does: the shadow stays what the restore put there.
-/
import Rshyve.Virtio.Pci.Layout
import Rshyve.Virtio.Pci.Migrate

namespace Rshyve.Virtio.Pci

open Rshyve.Mem

-- ==== the used ring

/-- The index of the used ring at `usedAddr`; zero is no address. -/
def ringIndex (m : GuestMem) (usedAddr : BitVec 64) : Option (BitVec 16) :=
  if usedAddr = 0 then none else readWord m (usedIdxGpa usedAddr).toNat

namespace VirtQueue

/-- The index the used ring holds, if the ring is set and readable. -/
def usedIndex (q : VirtQueue) (m : GuestMem) : Option (BitVec 16) :=
  ringIndex m q.usedAddr

/-- Read the used ring's index from guest memory, zero where it cannot be
read. -/
def readUsedRingIdx (q : VirtQueue) (m : GuestMem) : BitVec 16 :=
  (q.usedIndex m).getD 0

end VirtQueue

/-- A used entry: the head and the number of bytes written. -/
def usedEntry (descIdx : BitVec 16) (len : BitVec 32) : List UInt8 :=
  Bytes.le 4 descIdx.toNat ++ Bytes.le 4 len.toNat

/-- Store an entry in the slot of `idx`, then the index after it. -/
def writeUsed (m : GuestMem) (usedAddr : BitVec 64) (size idx : BitVec 16)
    (descIdx : BitVec 16) (len : BitVec 32) : GuestMem :=
  let m := m.store (usedEntryGpa usedAddr size idx).toNat 4 (usedEntry descIdx len)
  storeWord m (usedIdxGpa usedAddr).toNat (idx + 1)

/-- Push an entry onto the used ring of a queue that is served in line. -/
def VirtQueue.pushUsed (q : VirtQueue) (m : GuestMem) (descIdx : BitVec 16)
    (len : BitVec 32) : VirtQueue × GuestMem :=
  ({ q with shadowUsedIdx := q.shadowUsedIdx + 1 },
    writeUsed m q.usedAddr q.size q.shadowUsedIdx descIdx len)

/-- The used ring writer of a queue that is served by workers. -/
structure VirtioCompletion where
  usedAddr : BitVec 64
  availAddr : BitVec 64
  queueSize : BitVec 16
  writeIdx : BitVec 16
  eventIdx : Bool
  forceIntrCount : BitVec 32
  deriving DecidableEq, Repr

namespace VirtioCompletion

/-- The start position is the used index in guest memory. -/
def new (q : VirtQueue) (m : GuestMem) : VirtioCompletion :=
  ⟨q.usedAddr, q.availAddr, q.size,
    (readWord m (usedIdxGpa q.usedAddr).toNat).getD 0, q.eventIdx, 0⟩

def writeUsedEntry (c : VirtioCompletion) (m : GuestMem)
    (descIdx : BitVec 16) (len : BitVec 32) : VirtioCompletion × GuestMem :=
  ({ c with writeIdx := c.writeIdx + 1 }, writeUsed m c.usedAddr c.queueSize c.writeIdx descIdx len)

/-- The loop of `publish_batch`, under the lock of the index. -/
def writeEntries (c : VirtioCompletion) (m : GuestMem) :
    List (BitVec 16 × BitVec 32) → VirtioCompletion × GuestMem
  | [] => (c, m)
  | e :: rest =>
    let r := c.writeUsedEntry m e.1 e.2
    writeEntries r.1 r.2 rest

/-- `publish_batch` up to its decision: the index before the entries, and
what they leave. No entries end the call at once. -/
def publishBatch (c : VirtioCompletion) (m : GuestMem)
    (entries : List (BitVec 16 × BitVec 32)) :
    Option (BitVec 16 × VirtioCompletion × GuestMem) :=
  if entries = [] then none else some (c.writeIdx, c.writeEntries m entries)

end VirtioCompletion

@[simp] theorem writeUsed_space (m : GuestMem) (usedAddr : BitVec 64)
    (size idx descIdx : BitVec 16) (len : BitVec 32) :
    (writeUsed m usedAddr size idx descIdx len).space = m.space := by
  unfold writeUsed
  simp only [storeWord_space, GuestMem.store_space]

@[simp] theorem usedEntry_length (descIdx : BitVec 16) (len : BitVec 32) :
    (usedEntry descIdx len).length = 8 := by
  simp [usedEntry]

/-- No entry of a used ring meets its index, wherever the ring lies. -/
theorem usedIdx_apart_entry (used : BitVec 64) (size idx : BitVec 16) :
    Apart (usedIdxGpa used).toNat 2 (usedEntryGpa used size idx).toNat 8 := by
  have hslot := (idx % size).isLt
  have hused := used.isLt
  unfold Apart usedIdxGpa usedEntryGpa
  simp only [BitVec.toNat_add, BitVec.toNat_mul, BitVec.toNat_setWidth, BitVec.reduceToNat]
  omega

/-- A batch moves the handler's index and nothing else of it. -/
theorem writeEntries_fst (entries : List (BitVec 16 × BitVec 32))
    (c : VirtioCompletion) (m : GuestMem) :
    (c.writeEntries m entries).1
      = { c with writeIdx := c.writeIdx + BitVec.ofNat 16 entries.length } := by
  induction entries generalizing c m with
  | nil => simp [VirtioCompletion.writeEntries]
  | cons e rest ih =>
    rw [VirtioCompletion.writeEntries, ih, List.length_cons, Nat.add_comm,
      BitVec.ofNat_add, ← BitVec.add_assoc]
    rfl

/-- What a used ring's index reads after one entry. -/
theorem readWord_writeUsed (m : GuestMem) (usedAddr : BitVec 64)
    (size idx descIdx : BitVec 16) (len : BitVec 32) :
    readWord (writeUsed m usedAddr size idx descIdx len) (usedIdxGpa usedAddr).toNat =
      if canStore m.space (usedIdxGpa usedAddr).toNat 2 2 then
        (readWord m (usedIdxGpa usedAddr).toNat).map fun _ => idx + 1
      else readWord m (usedIdxGpa usedAddr).toNat := by
  have hentry := usedIdx_apart_entry usedAddr size idx
  rw [← usedEntry_length descIdx len] at hentry
  unfold writeUsed
  rw [readWord_storeWord, readWord_store_apart hentry, GuestMem.store_space]

/-- And after a batch. -/
theorem readWord_writeEntries (entries : List (BitVec 16 × BitVec 32))
    (c : VirtioCompletion) (m : GuestMem) (hne : entries ≠ []) :
    readWord (c.writeEntries m entries).2 (usedIdxGpa c.usedAddr).toNat =
      if canStore m.space (usedIdxGpa c.usedAddr).toNat 2 2 then
        (readWord m (usedIdxGpa c.usedAddr).toNat).map fun _ =>
          c.writeIdx + BitVec.ofNat 16 entries.length
      else readWord m (usedIdxGpa c.usedAddr).toNat := by
  induction entries generalizing c m with
  | nil => exact absurd rfl hne
  | cons e rest ih =>
    rw [VirtioCompletion.writeEntries]
    cases rest with
    | nil => exact readWord_writeUsed _ _ _ _ _ _
    | cons e' rest =>
      have hfirst := readWord_writeUsed m c.usedAddr c.queueSize c.writeIdx e.1 e.2
      have hrest := ih (c.writeUsedEntry m e.1 e.2).1 (c.writeUsedEntry m e.1 e.2).2 (by simp)
      have hcount : c.writeIdx + 1 + BitVec.ofNat 16 (e' :: rest).length
          = c.writeIdx + BitVec.ofNat 16 (e :: e' :: rest).length := by
        rw [List.length_cons (a := e), Nat.add_comm, BitVec.ofNat_add, ← BitVec.add_assoc]
        rfl
      simp only [VirtioCompletion.writeUsedEntry, writeUsed_space, hcount] at hrest
      refine hrest.trans ?_
      rw [hfirst]
      split
      · rw [Option.map_map]
        rfl
      · rfl

-- ==== whether to interrupt

/-- `VIRTQ_AVAIL_F_NO_INTERRUPT`. -/
def availFNoInterrupt : BitVec 16 := 1

/-- True when the move from `oldIdx` to `newIdx` crosses `eventIdx`. -/
def vringNeedEvent (eventIdx newIdx oldIdx : BitVec 16) : Bool :=
  decide (newIdx - eventIdx - 1 < newIdx - oldIdx)

/-- Whether the driver wants an interrupt after the used index moved. Words
that cannot be read do not hold it back. -/
def wantsInterrupt (m : GuestMem) (eventIdx : Bool) (availAddr : BitVec 64)
    (size oldIdx newIdx : BitVec 16) : Bool :=
  if !eventIdx then
    if availAddr ≠ 0 then
      match readWord m availAddr.toNat with
      | some flags => flags &&& availFNoInterrupt == 0
      | none => true
    else true
  else
    match readWord m (usedEventGpa availAddr size).toNat with
    | none => true
    | some usedEvent => vringNeedEvent usedEvent newIdx oldIdx

namespace VirtioCompletion

/-- Make the next `count` completions interrupt without condition. -/
def setForceInterrupt (c : VirtioCompletion) (count : BitVec 32) : VirtioCompletion :=
  { c with forceIntrCount := count }

/-- Whether the guest needs an interrupt for a batch. A forced one is claimed
in one read-modify-write, and nothing is read then. -/
def shouldInterrupt (c : VirtioCompletion) (m : GuestMem)
    (oldIdx newIdx : BitVec 16) : VirtioCompletion × Bool :=
  if c.forceIntrCount ≠ 0 then
    ({ c with forceIntrCount := c.forceIntrCount - 1 }, true)
  else
    (c, wantsInterrupt m c.eventIdx c.availAddr c.queueSize oldIdx newIdx)

end VirtioCompletion

-- ==== the history of one queue

/-- A software queue: its registers, guest memory, and the handler the
device built for the ring. -/
structure SoftQueue where
  q : VirtQueue
  mem : GuestMem
  handler : Option VirtioCompletion

/-- What can happen to a software queue. -/
inductive QueueEvent where
  | memory (mem : GuestMem)
  | features (eventIdx indirect : Bool)
  | size (size : BitVec 16)
  | pfn (pfn : BitVec 32)
  | enable (desc avail used : BitVec 64)
  | reset
  | restore (qs : VirtioMigrateQueue)
  | kick (lastAvail : BitVec 16)
  | attach
  | complete (entries : List (BitVec 16 × BitVec 32))
  | push (descIdx : BitVec 16) (len : BitVec 32)

namespace SoftQueue

/-- The queue of a new device. -/
def new (size : BitVec 16) (mem : GuestMem) : SoftQueue :=
  ⟨.new size, mem, none⟩

/-- A ring the driver programmed. The device hears of one that passes the
check and drops the old ring's handler; one that fails is taken away. -/
def programmed (s : SoftQueue) (q : VirtQueue) : SoftQueue :=
  match q.validateAddrs s.mem.space with
  | .error _ => { s with q := q.reset }
  | .ok () => { s with q := q, handler := none }

/-- A queue put back from the wire, on a device without a handler yet. -/
def restored (s : SoftQueue) (qs : VirtioMigrateQueue) : Option SoftQueue :=
  match s.handler, s.q.reset.setSize qs.queueSize with
  | none, .ok q =>
    some { s with
      q := ((q.setAddrModern qs.descAddr qs.availAddr qs.usedAddr
        ).setLastAvailIdx qs.availIdx).setShadowUsedIdx qs.usedIdx }
  | _, _ => none

/-- One event. `async` says which of the two ways the device serves the
queue; the two are never mixed on one queue. -/
def step (async : Bool) (s : SoftQueue) : QueueEvent → Option SoftQueue
  | .memory mem => some { s with mem := mem }
  | .features eventIdx indirect =>
    some { s with
      q := (s.q.setEventIdx eventIdx).setIndirectSupported indirect }
  | .size size =>
    match s.q.setSize size with
    | .error _ => some s
    | .ok q => some { s with q := q }
  | .pfn pfn =>
    if pfn = 0 then
      some { s with q := s.q.setAddrLegacy pfn, handler := none }
    else some (s.programmed (s.q.setAddrLegacy pfn))
  | .enable desc avail used =>
    some (s.programmed (s.q.setAddrModern desc avail used))
  | .reset => some { s with q := s.q.reset, handler := none }
  | .restore qs => s.restored qs
  | .kick lastAvail =>
    some { s with
      q := s.q.drained s.mem.space ⟨lastAvail, s.q.shadowUsedIdx, true⟩ }
  | .attach =>
    if async && s.handler.isNone then
      some { s with handler := some (.new s.q s.mem) }
    else none
  | .complete entries =>
    match s.handler with
    | none => none
    | some c =>
      let r := c.writeEntries s.mem entries
      some { s with mem := r.2, handler := some r.1 }
  | .push descIdx len =>
    if async then none
    else
      let r := s.q.pushUsed s.mem descIdx len
      some { s with q := r.1, mem := r.2 }

/-- The event does not leave a zero in the used ring under a shadow that is
not zero. A write to memory from elsewhere, a page frame number (which keeps
the cursors) and a restore must not; a batch must not end at a wrap; an
entry pushed in line moves the shadow, so its index must land. -/
def keepsZero (s : SoftQueue) : QueueEvent → Bool
  | .memory mem => s.q.usedIndex mem != some 0 || s.q.shadowUsedIdx == 0
  | .pfn pfn =>
    (s.q.setAddrLegacy pfn).usedIndex s.mem != some 0
      || s.q.shadowUsedIdx == 0
  | .restore qs => ringIndex s.mem qs.usedAddr != some 0 || qs.usedIdx == 0
  | .complete entries =>
    match s.handler with
    | none => true
    | some c =>
      entries.isEmpty
        || c.writeIdx + BitVec.ofNat 16 entries.length != 0
        || s.q.shadowUsedIdx == 0
  | .push _ _ =>
    canStore s.mem.space (usedIdxGpa s.q.usedAddr).toNat 2 2
      || s.q.usedIndex s.mem != some 0 || s.q.shadowUsedIdx + 1 == 0
  | _ => true

/-- What the export of a device with this queue reads beside the
registers: no kernel ring, and the used ring in guest memory. -/
def source (n : Nat) (mem : GuestMem) : SourceBackend n :=
  ⟨fun _ => .ok none, fun q => q.readUsedRingIdx mem⟩

end SoftQueue

end Rshyve.Virtio.Pci
