/-
# virtio-blk requests

The parts of `vmm-virtio/src/block.rs`, `block/io.rs` and `block/discard.rs`
that compute on a request and touch neither guest memory nor the disk: the
limits on a chain, the offset of a sector, the validation of a discard
payload. Guest memory appears as the bytes that were read out of it.
-/
import Rshyve.Data.Bytes
import Rshyve.Mem.PhysMap
import Rshyve.Virtio.Queue

namespace Rshyve.Virtio

open Mem (checkedAdd)

-- ==== constants

def blkTIn : Nat := 0
def blkTOut : Nat := 1
def blkTFlush : Nat := 4
def blkTGetId : Nat := 8
def blkTDiscard : Nat := 11
def blkTWriteZeroes : Nat := 13

def blkSOk : Nat := 0
def blkSIoerr : Nat := 1
def blkSUnsupp : Nat := 2

def sectorSize : Nat := 512
def blkReqHeaderSize : Nat := 16
def blkIdBytes : Nat := 20

/-- Longest data segment, most data segments, and what they add up to. -/
def sizeMax : Nat := 128 * 1024
def segMax : Nat := 126
def maxReqBytes : Nat := segMax * sizeMax

/-- Bytes a worker moves between the disk and its buffer per call. -/
def bounceBytes : Nat := 256 * 1024

-- ==== requests

structure VirtioBlkReqHdr where
  rtype : Nat
  sector : Nat
  deriving DecidableEq, Repr

/-- Backing-store properties a request is checked against. -/
structure DiskLimits where
  capacity : Nat
  readOnly : Bool
  nodelete : Bool
  deriving DecidableEq, Repr

/-- Whether an opcode reaches the backing store. -/
def needsBackend (rtype : Nat) : Bool :=
  rtype == blkTIn || rtype == blkTOut || rtype == blkTFlush ||
    rtype == blkTDiscard || rtype == blkTWriteZeroes

/-- The data segments: the chain without its header and its status. -/
def dataSegments (chain : List ChainBuf) : Option (List ChainBuf) :=
  if chain.length = 0 then none
  else if chain.length - 1 < 1 then none
  else some ((chain.take (chain.length - 1)).drop 1)

/-- The loop of `fold`: the bytes of all segments and of the picked ones. -/
def foldFrom (pick : ChainBuf → Bool) : Nat → Nat → List ChainBuf → Option Nat
  | _, wanted, [] => some wanted
  | total, wanted, b :: bs =>
    if b.len > sizeMax then none
    else if total + b.len > maxReqBytes then none
    else foldFrom pick (total + b.len) (if pick b then wanted + b.len else wanted) bs

/-- Fold the data segments of a chain, refusing one that runs past the
advertised limits. -/
def fold (chain : List ChainBuf) (pick : ChainBuf → Bool) : Option Nat := do
  let data ← dataSegments chain
  if data.length > segMax then none else foldFrom pick 0 0 data

/-- Bytes a chain names in either direction. -/
def span (chain : List ChainBuf) : Option Nat := fold chain fun _ => true

/-- Bytes a chain moves in the request's own direction. -/
def transfer (chain : List ChainBuf) (writable : Bool) : Option Nat :=
  fold chain fun b => b.isWritable == writable

/-- Byte offset of `sector`, which the kernel takes as a signed number. -/
def sectorOffset (sector : Nat) : Option Nat :=
  if sector * sectorSize < 2 ^ 63 then some (sector * sectorSize) else none

/-- Whether the first buffer can hold a request header. -/
def headerAddr : List ChainBuf → Option Nat
  | .readable addr len :: _ =>
    if len ≥ blkReqHeaderSize then some addr else none
  | _ => none

/-- The part of `check_request` after the header is read: a transfer names
at least one byte and stays inside the disk. -/
def checkHeader (capacity : Nat) (chain : List ChainBuf) (header : VirtioBlkReqHdr) : Bool :=
  match span chain with
  | none => false
  | some bytes =>
    if header.rtype = blkTIn ∨ header.rtype = blkTOut then
      if bytes = 0 then false
      else
        match checkedAdd header.sector ((bytes + sectorSize - 1) / sectorSize) with
        | none => false
        | some stop => decide (stop ≤ capacity)
    else true

/-- Where `GET_ID` puts its answer: the first non-empty writable data
buffer, and how much of the ID fits there. -/
def idBuffer (chain : List ChainBuf) : Option (Nat × Nat) := do
  let data ← dataSegments chain
  let b ← data.find? fun b => b.isWritable && min b.len blkIdBytes != 0
  return (b.addr, min b.len blkIdBytes)

-- ==== discard

def discardSegSize : Nat := 16
def maxSeg : Nat := 8
def maxDiscardSectors : Nat := 4 * 1024 * 1024
def maxWriteZeroesSectors : Nat := 16 * 1024

/-- What one DISCARD or WRITE_ZEROES request asks for: a settled status, or
the ranges it must zero. -/
inductive Plan where
  | settled (status : Nat)
  | zero (ranges : List (Nat × Nat))
  deriving DecidableEq, Repr

/-- One 16-byte segment of the payload. UNMAP is legal for WRITE_ZEROES
only, every other flag is reserved. -/
def checkSegment (limits : DiskLimits) (writeZeroes : Bool)
    (raw : List UInt8) : Except Nat (Nat × Nat) :=
  let sector := Bytes.ofLe (raw.take 8)
  let numSectors := Bytes.ofLe ((raw.drop 8).take 4)
  let flags := Bytes.ofLe ((raw.drop 12).take 4)
  let reserved := if writeZeroes then flags / 2 else flags
  let maxSectors :=
    if writeZeroes then maxWriteZeroesSectors else maxDiscardSectors
  if reserved ≠ 0 then .error blkSUnsupp
  else if numSectors > maxSectors then .error blkSIoerr
  else match checkedAdd sector numSectors with
    | none => .error blkSIoerr
    | some stop =>
      if stop > limits.capacity then .error blkSIoerr
      else .ok (sector, numSectors)

/-- The segments of a payload, up to the first one that is refused. -/
def checkSegments (limits : DiskLimits) (writeZeroes : Bool) :
    Nat → List UInt8 → Except Nat (List (Nat × Nat))
  | 0, _ => .ok []
  | n + 1, payload => do
    let range ← checkSegment limits writeZeroes (payload.take discardSegSize)
    let rest ← checkSegments limits writeZeroes n (payload.drop discardSegSize)
    return range :: rest

/-- The checks of `discard::plan` that come before guest memory is read: the
status they settle, if they do. -/
def planBefore (limits : DiskLimits) (rtype : Nat) (chain : List ChainBuf) : Option Nat :=
  if limits.readOnly then some blkSIoerr
  else if rtype ≠ blkTWriteZeroes ∧ limits.nodelete then some blkSUnsupp
  else if chain.length < 3 then some blkSIoerr
  else none

/-- Bytes `read_payload` copies: every data buffer must be readable, and all
of them fit the segments one request may carry. -/
def payloadFrom : Nat → List ChainBuf → Option Nat
  | used, [] => some used
  | used, .readable _ len :: bs =>
    if used + len > discardSegSize * maxSeg then none
    else payloadFrom (used + len) bs
  | _, .writable .. :: _ => none

def payloadLen (chain : List ChainBuf) : Option Nat := do
  let data ← dataSegments chain
  payloadFrom 0 data

/-- The rest of `discard::plan`, on the payload read out of the chain. -/
def planPayload (limits : DiskLimits) (rtype : Nat) : Option (List UInt8) → Plan
  | none => .settled blkSIoerr
  | some payload =>
    let writeZeroes := rtype == blkTWriteZeroes
    if payload.length = 0 ∨ payload.length % discardSegSize ≠ 0 then
      .settled blkSIoerr
    else
      match checkSegments limits writeZeroes (payload.length / discardSegSize) payload with
      | .error status => .settled status
      | .ok ranges =>
        if writeZeroes then .zero ranges else .settled blkSOk

end Rshyve.Virtio
