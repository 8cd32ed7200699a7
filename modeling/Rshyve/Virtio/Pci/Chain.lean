/-
# Descriptor chains

`vmm-virtio/src/queue.rs`, `read_desc`, `walk_indirect_table` and
`collect_chain`: the buffers of the chain that starts at a head, out of
memory the guest wrote. Each of the two loops is a turn (`tableTurn`,
`chainTurn`) handed to `Links.walk`: a turn that returns nothing is the
source's `return None`, one without a next index its `break`.

The address of a direct descriptor is computed without a check and wraps as
in a release build; one in an indirect table is checked. A descriptor holds
a `u64`, so a load of one wants eight-byte alignment.
-/
import Rshyve.Data.Links
import Rshyve.Virtio.Pci.Layout

namespace Rshyve.Virtio.Pci

open Rshyve.Mem

/-- `VRING_DESC_F_NEXT`. -/
def descFNext : BitVec 16 := 1

/-- `VRING_DESC_F_WRITE`. -/
def descFWrite : BitVec 16 := 2

/-- `VRING_DESC_F_INDIRECT`. -/
def descFIndirect : BitVec 16 := 4

/-- One 16-byte descriptor as laid out in guest memory. -/
structure VirtqDesc where
  addr : BitVec 64
  len : BitVec 32
  flags : BitVec 16
  next : BitVec 16
  deriving DecidableEq, Repr

namespace VirtqDesc

def hasNext (d : VirtqDesc) : Bool := d.flags &&& descFNext != 0

/-- True for a device-writable buffer. -/
def isWrite (d : VirtqDesc) : Bool := d.flags &&& descFWrite != 0

/-- True when the descriptor points to an indirect table. -/
def isIndirect (d : VirtqDesc) : Bool := d.flags &&& descFIndirect != 0

/-- The descriptor sixteen bytes hold. -/
def ofBytes (bs : List UInt8) : VirtqDesc where
  addr := .ofNat 64 (Bytes.ofLe (bs.take 8))
  len := .ofNat 32 (Bytes.ofLe ((bs.drop 8).take 4))
  flags := .ofNat 16 (Bytes.ofLe ((bs.drop 12).take 2))
  next := .ofNat 16 (Bytes.ofLe ((bs.drop 14).take 2))

/-- The buffer a descriptor names, by direction. -/
def buf (d : VirtqDesc) : ChainBuf :=
  if d.isWrite then .writable d.addr.toNat d.len.toNat
  else .readable d.addr.toNat d.len.toNat

/-- The descriptor NEXT points at. -/
def link (d : VirtqDesc) : Option (BitVec 16) :=
  if d.hasNext then some d.next else none

end VirtqDesc

/-- A descriptor out of guest memory. -/
def loadDesc (m : GuestMem) (gpa : Nat) : Option VirtqDesc :=
  (m.load gpa 16 8).map .ofBytes

/-- `u64::checked_mul`. -/
def checkedMul (a b : Nat) : Option Nat :=
  if a * b < 2 ^ 64 then some (a * b) else none

-- ==== the two loops

/-- One turn of `walk_indirect_table` at descriptor `idx`. Out of bounds and
nested tables end the walk. -/
def tableTurn (m : GuestMem) (gpa : BitVec 64) (numDescs : Nat) :
    Links.Turn Nat ChainBuf := fun _ idx =>
  if idx ≥ numDescs then none
  else do
    let offset ← checkedMul idx 16
    let descGpa ← checkedAdd gpa.toNat offset
    let desc ← loadDesc m descGpa
    if desc.isIndirect then none
    else return ([desc.buf], desc.link.map BitVec.toNat)

/-- Walk the indirect table of `len` bytes at `gpa`, in a chain that can name
`budget` more descriptors. -/
def walkIndirectTable (m : GuestMem) (gpa : BitVec 64) (len : BitVec 32)
    (budget : Nat) : Option (List ChainBuf) :=
  let numDescs := len.toNat / 16
  if numDescs = 0 ∨ len.toNat % 16 ≠ 0 then none
  else if numDescs > budget then none
  else Links.walk (tableTurn m gpa numDescs) numDescs 0 0 []

namespace VirtQueue

/-- Nothing if `idx` is out of bounds or the descriptor cannot be read. -/
def readDesc (q : VirtQueue) (m : GuestMem) (idx : BitVec 16) : Option VirtqDesc :=
  if idx ≥ q.size then none
  else loadDesc m (descGpa q.descAddr idx).toNat

/-- One turn of `collect_chain` at descriptor `idx`, after `count` others. A
table ends the chain, and the buffers before it stay in the result. -/
def chainTurn (q : VirtQueue) (m : GuestMem) :
    Links.Turn (BitVec 16) ChainBuf := fun count idx => do
  let desc ← q.readDesc m idx
  if desc.isIndirect then
    if !q.indirectSupported then none
    else if desc.hasNext then none
    else
      -- `size - count + 1`, with this descriptor counted
      let budget := q.size.toNat + 1 - (count + 1)
      let bufs ← walkIndirectTable m desc.addr desc.len budget
      return (bufs, none)
  else return ([desc.buf], desc.link)

/-- Collect the buffers of the chain that starts at `head`. -/
def collectChain (q : VirtQueue) (m : GuestMem) (head : BitVec 16) : Option (List ChainBuf) :=
  Links.walk (q.chainTurn m) q.size.toNat 0 head []

end VirtQueue

-- ==== what a chain is

/-- The descriptors NEXT links inside an indirect table of `numDescs`
descriptors at `gpa`, and the buffers they name: every one lies in the table,
can be read, and is not a table itself. -/
inductive TablePath (m : GuestMem) (gpa : BitVec 64) (numDescs : Nat) :
    Nat → List ChainBuf → Prop where
  | last {idx : Nat} {d : VirtqDesc} (hin : idx < numDescs)
      (hd : loadDesc m (gpa.toNat + idx * 16) = some d)
      (hflat : d.isIndirect = false) (hend : d.hasNext = false) :
      TablePath m gpa numDescs idx [d.buf]
  | next {idx : Nat} {d : VirtqDesc} {bufs : List ChainBuf} (hin : idx < numDescs)
      (hd : loadDesc m (gpa.toNat + idx * 16) = some d)
      (hflat : d.isIndirect = false) (hmore : d.hasNext = true)
      (hrest : TablePath m gpa numDescs d.next.toNat bufs) :
      TablePath m gpa numDescs idx (d.buf :: bufs)

/-- The descriptors NEXT links from `idx` on, with `k` before it, and the
buffers they name. The last may stand for a table, if the driver negotiated
that, which then holds no more descriptors than the ring has left. -/
inductive ChainPath (q : VirtQueue) (m : GuestMem) :
    Nat → BitVec 16 → List ChainBuf → Prop where
  | last {k : Nat} {idx : BitVec 16} {d : VirtqDesc} (hin : idx < q.size)
      (hd : loadDesc m (descGpa q.descAddr idx).toNat = some d)
      (hdirect : d.isIndirect = false) (hend : d.hasNext = false) :
      ChainPath q m k idx [d.buf]
  | next {k : Nat} {idx : BitVec 16} {d : VirtqDesc} {bufs : List ChainBuf} (hin : idx < q.size)
      (hd : loadDesc m (descGpa q.descAddr idx).toNat = some d)
      (hdirect : d.isIndirect = false) (hmore : d.hasNext = true)
      (hrest : ChainPath q m (k + 1) d.next bufs) :
      ChainPath q m k idx (d.buf :: bufs)
  | table {k : Nat} {idx : BitVec 16} {d : VirtqDesc} {bufs : List ChainBuf} (hin : idx < q.size)
      (hd : loadDesc m (descGpa q.descAddr idx).toNat = some d)
      (htable : d.isIndirect = true) (hneg : q.indirectSupported = true)
      (hend : d.hasNext = false) (hlen : d.len.toNat % 16 = 0)
      (hbudget : d.len.toNat / 16 ≤ q.size.toNat - k)
      (hrest : TablePath m d.addr (d.len.toNat / 16) 0 bufs) :
      ChainPath q m k idx bufs

end Rshyve.Virtio.Pci
