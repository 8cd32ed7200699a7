/-
# Workers that complete on one used ring

`vmm-virtio/src/queue/completion.rs` with any number of workers. A batch is
serialised under the handler's lock (`publish`); whether to interrupt is
decided after the lock is gone (`decide`), so other workers publish between
the two. Meanwhile the driver writes its own memory.

The driver is taken to keep off what the device owns and off its event word:
a store that meets the used ring's index or entries, or `used_event`, is not
one of its steps.

# What is recorded

`log` is every entry serialised so far, in the order of the lock; entry
number `i` of it has the used index `i` places after the one the handler
started from. `batches` and `answers` name a batch by the number of its first
entry.
-/
import Rshyve.Virtio.UsedIndex

namespace Rshyve.Virtio.Pci

open Rshyve.Mem

/-- The entries `start` to `start + len` of the log. -/
structure Batch where
  start : Nat
  len : Nat
  deriving DecidableEq, Repr

/-- What a batch's worker was told: whether the interrupt was a forced one,
and whether to raise one at all. -/
structure Answer where
  batch : Batch
  forced : Bool
  asks : Bool
  deriving DecidableEq, Repr

/-- A batch that is serialised and not decided: the index before and after. -/
structure Undecided where
  batch : Batch
  oldIdx : BitVec 16
  newIdx : BitVec 16
  deriving DecidableEq, Repr

/-- The handler, memory, and what the workers are at. -/
structure Workers where
  handler : VirtioCompletion
  mem : GuestMem
  pending : Nat → Option Undecided
  log : List (BitVec 16 × BitVec 32)
  batches : List Batch
  answers : List Answer

/-- What can happen next. -/
inductive WorkerEvent where
  | publish (worker : Nat) (entries : List (BitVec 16 × BitVec 32))
  | decide (worker : Nat)
  | force (count : BitVec 32)
  | driver (gpa : Nat) (data : List UInt8)

/-- A range that meets neither the used ring's index and entries nor the
event word. -/
def VirtioCompletion.spares (c : VirtioCompletion) (gpa len : Nat) : Bool :=
  decide (Apart (usedIdxGpa c.usedAddr).toNat 2 gpa len) &&
    decide (Apart (usedEventGpa c.availAddr c.queueSize).toNat 2 gpa len) &&
    (List.range c.queueSize.toNat).all fun slot =>
      decide (Apart (usedEntryGpa c.usedAddr c.queueSize (BitVec.ofNat 16 slot)).toNat 8 gpa len)

namespace Workers

/-- A new handler for a programmed queue, and idle workers. -/
def start (q : VirtQueue) (m : GuestMem) : Workers :=
  ⟨.new q m, m, fun _ => none, [], [], []⟩

/-- One event. A worker that published decides before it publishes again. -/
def step (s : Workers) : WorkerEvent → Option Workers
  | .publish worker entries =>
    match s.pending worker, s.handler.publishBatch s.mem entries with
    | some _, _ => none
    | none, none => some s
    | none, some (oldIdx, handler, mem) =>
      let batch : Batch := ⟨s.log.length, entries.length⟩
      some { s with
        handler := handler
        mem := mem
        pending := Function.update s.pending worker
          (some ⟨batch, oldIdx, handler.writeIdx⟩)
        log := s.log ++ entries
        batches := s.batches ++ [batch] }
  | .decide worker =>
    match s.pending worker with
    | none => none
    | some u =>
      let forced := s.handler.forceIntrCount != 0
      let r := s.handler.shouldInterrupt s.mem u.oldIdx u.newIdx
      some { s with
        handler := r.1
        pending := Function.update s.pending worker none
        answers := s.answers ++ [⟨u.batch, forced, r.2⟩] }
  | .force count =>
    some { s with handler := s.handler.setForceInterrupt count }
  | .driver gpa data =>
    if s.handler.spares gpa data.length then
      some { s with
        mem := { s.mem with bytes := poke s.mem.bytes gpa data } }
    else none

end Workers

end Rshyve.Virtio.Pci
