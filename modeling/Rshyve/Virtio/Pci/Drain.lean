/-
# Draining the available ring

`vmm-virtio/src/queue.rs` over the bytes of guest memory: the cached address
check, `pop_avail`, and `drain_avail` with its two nested loops. The inner
loop takes heads until a pop returns nothing or the cap is reached; the outer
one arms `avail_event` and looks at the ring again.

The inner loop is bounded by the cap. The outer one is not bounded by the
code, so it runs here on fuel, and a drain that returns is one for which
enough fuel was given. What the callback does to the queue and to memory is a
parameter.

`programming` is every sequence of calls that sets a queue up, with the pops
between them that cache a verdict.
-/
import Rshyve.Virtio.Pci.Layout

namespace Rshyve.Virtio.Pci

open Rshyve.Mem

namespace VirtQueue

-- ==== single pops

/-- Whether the rings passed the check, checked once and cached. -/
def addrsUsable (q : VirtQueue) (s : AddressSpace) : VirtQueue × Bool :=
  match q.addrsOk with
  | some ok => (q, ok)
  | none =>
    match q.validateAddrs s with
    | .ok () => ({ q with addrsOk := some true }, true)
    | .error _ => ({ q with addrsOk := some false }, false)

/-- The part of `pop_avail` behind the checks. An entry that names no
descriptor is taken and yields no head. -/
def popEntry (q : VirtQueue) (m : GuestMem) : VirtQueue × Option (BitVec 16) :=
  match readWord m (availIdxGpa q.availAddr).toNat with
  | none => (q, none)
  | some availIdx =>
    if q.lastAvailIdx = availIdx then (q, none)
    else
      match readWord m (availEntryGpa q.availAddr q.size q.lastAvailIdx).toNat with
      | none => (q, none)
      | some descIdx =>
        let q := { q with lastAvailIdx := q.lastAvailIdx + 1 }
        if descIdx ≥ q.size then (q, none) else (q, some descIdx)

/-- Take the next head from the available ring. -/
def popAvail (q : VirtQueue) (m : GuestMem) : VirtQueue × Option (BitVec 16) :=
  if !q.isConfigured then (q, none)
  else
    let r := q.addrsUsable m.space
    if !r.2 then (r.1, none) else r.1.popEntry m

/-- Write `avail_event` in the used ring, so that the guest kicks for the
next entry it adds. -/
def updateUsedEvent (q : VirtQueue) (m : GuestMem) : GuestMem :=
  if !q.eventIdx then m
  else storeWord m (availEventGpa q.usedAddr q.size).toNat q.lastAvailIdx

/-- The store this makes: its address and its word, if it can be made. -/
def usedEventStore (q : VirtQueue) (s : AddressSpace) :
    Option (Nat × BitVec 16) :=
  let gpa := (availEventGpa q.usedAddr q.size).toNat
  if q.eventIdx && canStore s gpa 2 2 then some (gpa, q.lastAvailIdx)
  else none

/-- Whether new entries arrived after `update_used_event`. -/
def hasNewAvail (q : VirtQueue) (m : GuestMem) : Bool :=
  if !q.eventIdx || !q.isConfigured then false
  else
    match readWord m (availIdxGpa q.availAddr).toNat with
    | some availIdx => availIdx != q.lastAvailIdx
    | none => false

/-- Whether a drain that just armed `avail_event` is finished
(`queue_drain_should_stop`). -/
def drainShouldStop (q : VirtQueue) (before : BitVec 16)
    (hitRequestCap : Bool) (m : GuestMem) : Bool :=
  q.lastAvailIdx == before || hitRequestCap || !q.hasNewAvail m

-- ==== the drain

/-- What a drain works on: the queue, memory, the heads it has given to the
callback so far, and the stores it has made itself. -/
structure Drained where
  q : VirtQueue
  mem : GuestMem
  heads : List (BitVec 16)
  stores : List (Nat × BitVec 16)

/-- `FnMut(&mut VirtQueue, u16)`, with the memory it may write. -/
abbrev Callback := VirtQueue → GuestMem → BitVec 16 → VirtQueue × GuestMem

/-- The `while` loop of a drain, with `left` heads to the cap. -/
def takeHeads (each : Callback) : Nat → Drained → Drained
  | 0, d => d
  | left + 1, d =>
    match d.q.popAvail d.mem with
    | (q, none) => { d with q := q }
    | (q, some head) =>
      let r := each q d.mem head
      takeHeads each left ⟨r.1, r.2, d.heads ++ [head], d.stores⟩

/-- One turn of the outer loop: the heads of a pass, and the arm. -/
def drainPass (each : Callback) (max : Nat) (d : Drained) : Drained :=
  let d := takeHeads each (max - d.heads.length) d
  { d with
    mem := d.q.updateUsedEvent d.mem
    stores := d.stores ++ (d.q.usedEventStore d.mem.space).toList }

/-- The outer loop. Nothing comes back from a drain that needs more turns
than it was given. -/
def drainLoop (each : Callback) (max : Nat) : Nat → Drained → Option Drained
  | 0, _ => none
  | fuel + 1, d =>
    let d' := drainPass each max d
    if d'.q.drainShouldStop d.q.lastAvailIdx (d'.heads.length ≥ max) d'.mem
    then some d'
    else drainLoop each max fuel d'

/-- Take heads and give each to `each`, until the ring is empty or `max`
heads are taken. -/
def drainAvail (fuel : Nat) (q : VirtQueue) (m : GuestMem) (max : Nat)
    (each : Callback) : Option Drained :=
  drainLoop each max fuel ⟨q, m, [], []⟩

end VirtQueue

-- ==== programming

/-- A call on a queue: programming, negotiation, a restored cursor, or a pop
over whatever memory holds then. -/
inductive RingOp where
  | size (size : BitVec 16)
  | legacy (pfn : BitVec 32)
  | modern (desc avail used : BitVec 64)
  | eventIdx (enabled : Bool)
  | indirect (supported : Bool)
  | cursors (lastAvail shadowUsed : BitVec 16)
  | reset
  | pop (bytes : Nat → UInt8)

namespace VirtQueue

/-- One call, over the memory map `s`. -/
def perform (s : AddressSpace) (q : VirtQueue) : RingOp → VirtQueue
  | .size size =>
    match q.setSize size with
    | .ok q' => q'
    | .error _ => q
  | .legacy pfn => q.setAddrLegacy pfn
  | .modern desc avail used => q.setAddrModern desc avail used
  | .eventIdx enabled => q.setEventIdx enabled
  | .indirect supported => q.setIndirectSupported supported
  | .cursors lastAvail shadowUsed =>
    (q.setLastAvailIdx lastAvail).setShadowUsedIdx shadowUsed
  | .reset => q.reset
  | .pop bytes => (q.popAvail ⟨s, bytes⟩).1

/-- A sequence of calls. -/
def programming (s : AddressSpace) (q : VirtQueue) (ops : List RingOp) : VirtQueue :=
  ops.foldl (perform s) q

end VirtQueue

end Rshyve.Virtio.Pci
