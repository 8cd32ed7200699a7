/-
# Where the words of a virtqueue lie

`vmm-virtio/src/queue.rs`: the address of every word the device reads or
writes in the three rings, as the source computes it. The arithmetic is that
of `u64` and wraps; `Access.in_range` says that it does not once the rings
passed the check, and that the word then lies inside the range that was
checked.

A split virtqueue is laid out as

- descriptor table: 16 bytes for each descriptor;
- available ring: flags (2), idx (2), one entry (2) for each descriptor,
  then used_event (2);
- used ring: flags (2), idx (2), one entry (8) for each descriptor, then
  avail_event (2).
-/
import Rshyve.Mem.Typed
import Rshyve.Virtio.Pci.Queue

namespace Rshyve.Virtio.Pci

open Rshyve.Mem (AddressSpace checkedAdd checkedAdd_some)

-- ==== addresses

/-- The descriptor `idx` of the table at `desc`. -/
def descGpa (desc : BitVec 64) (idx : BitVec 16) : BitVec 64 :=
  desc + idx.setWidth 64 * 16

def availIdxGpa (avail : BitVec 64) : BitVec 64 := avail + 2

/-- The entry of the available ring the cursor `idx` stands at. -/
def availEntryGpa (avail : BitVec 64) (size idx : BitVec 16) : BitVec 64 :=
  avail + 4 + (idx % size).setWidth 64 * 2

def usedEventGpa (avail : BitVec 64) (size : BitVec 16) : BitVec 64 :=
  avail + 4 + size.setWidth 64 * 2

def usedIdxGpa (used : BitVec 64) : BitVec 64 := used + 2

/-- The entry of the used ring the index `idx` stands at. -/
def usedEntryGpa (used : BitVec 64) (size idx : BitVec 16) : BitVec 64 :=
  used + 4 + (idx % size).setWidth 64 * 8

def availEventGpa (used : BitVec 64) (size : BitVec 16) : BitVec 64 :=
  used + 4 + size.setWidth 64 * 8

-- ==== accesses

/-- What the device reaches in the rings. -/
inductive Access where
  | desc (idx : BitVec 16)
  | availFlags
  | availIdx
  | availEntry (idx : BitVec 16)
  | usedEvent
  | usedIdx
  | usedEntry (idx : BitVec 16)
  | availEvent
  deriving DecidableEq, Repr

namespace Access

/-- The ring the word belongs to. -/
def ring : Access → Ring
  | desc _ => .desc
  | availFlags | availIdx | availEntry _ | usedEvent => .avail
  | usedIdx | usedEntry _ | availEvent => .used

/-- The address the queue computes. -/
def gpa (q : VirtQueue) : Access → BitVec 64
  | desc idx => descGpa q.descAddr idx
  | availFlags => q.availAddr
  | availIdx => availIdxGpa q.availAddr
  | availEntry idx => availEntryGpa q.availAddr q.size idx
  | usedEvent => usedEventGpa q.availAddr q.size
  | usedIdx => usedIdxGpa q.usedAddr
  | usedEntry idx => usedEntryGpa q.usedAddr q.size idx
  | availEvent => availEventGpa q.usedAddr q.size

/-- The bytes it reaches there. -/
def len : Access → Nat
  | desc _ => 16
  | usedEntry _ => 8
  | _ => 2

/-- Where the word lies in its ring. -/
def offset (q : VirtQueue) : Access → Nat
  | desc idx => idx.toNat * 16
  | availFlags => 0
  | availIdx | usedIdx => 2
  | availEntry idx => 4 + idx.toNat % q.size.toNat * 2
  | usedEvent => 4 + q.size.toNat * 2
  | usedEntry idx => 4 + idx.toNat % q.size.toNat * 8
  | availEvent => 4 + q.size.toNat * 8

/-- Whether the queue makes the access at all: `read_desc` refuses an index
past the table, and the event words exist only under EVENT_IDX. -/
def made (q : VirtQueue) : Access → Bool
  | desc idx => decide (idx < q.size)
  | usedEvent | availEvent => q.eventIdx
  | _ => true

/-- No addition on the way to the word overflowed, and the word lies inside
the range of its ring. -/
structure InRange (q : VirtQueue) (a : Access) : Prop where
  exact_sum : (a.gpa q).toNat = (q.addrOf a.ring).toNat + a.offset q
  fits : a.offset q + a.len ≤ q.bytesOf a.ring
  below : (a.gpa q).toNat + a.len < 2 ^ 64

-- ==== ranges and addresses

variable {q : VirtQueue} {a : Access}

theorem offset_add_len_le (hsize : q.size ≠ 0)
    (hmade : a.made q = true) : a.offset q + a.len ≤ q.bytesOf a.ring := by
  have hpos : 0 < q.size.toNat := by
    rcases Nat.eq_zero_or_pos q.size.toNat with h | h
    · exact absurd (BitVec.eq_of_toNat_eq h) hsize
    · exact h
  have hslot (idx : BitVec 16) : idx.toNat % q.size.toNat < q.size.toNat :=
    Nat.mod_lt _ hpos
  cases a with
  | desc idx =>
    have hlt : idx.toNat < q.size.toNat := of_decide_eq_true hmade
    show idx.toNat * 16 + 16 ≤ q.size.toNat * 16
    omega
  | availFlags =>
    show 0 + 2 ≤ 4 + q.size.toNat * 2 + q.eventFieldBytes
    omega
  | availIdx =>
    show 2 + 2 ≤ 4 + q.size.toNat * 2 + q.eventFieldBytes
    omega
  | availEntry idx =>
    show 4 + idx.toNat % q.size.toNat * 2 + 2 ≤ 4 + q.size.toNat * 2 + q.eventFieldBytes
    have := hslot idx
    omega
  | usedEvent =>
    have he : q.eventFieldBytes = 2 := if_pos hmade
    show 4 + q.size.toNat * 2 + 2 ≤ 4 + q.size.toNat * 2 + q.eventFieldBytes
    omega
  | usedIdx =>
    show 2 + 2 ≤ 4 + q.size.toNat * 8 + q.eventFieldBytes
    omega
  | usedEntry idx =>
    show 4 + idx.toNat % q.size.toNat * 8 + 8 ≤ 4 + q.size.toNat * 8 + q.eventFieldBytes
    have := hslot idx
    omega
  | availEvent =>
    have he : q.eventFieldBytes = 2 := if_pos hmade
    show 4 + q.size.toNat * 8 + 2 ≤ 4 + q.size.toNat * 8 + q.eventFieldBytes
    omega

/-- The address is the ring's plus the offset, in the arithmetic of `u64`. -/
theorem gpa_toNat (q : VirtQueue) (a : Access) :
    (a.gpa q).toNat = ((q.addrOf a.ring).toNat + a.offset q) % 2 ^ 64 := by
  have hmod (idx : BitVec 16) : (idx % q.size).toNat = idx.toNat % q.size.toNat := BitVec.toNat_umod
  cases a with
  | desc idx =>
    have := idx.isLt
    simp only [gpa, descGpa, offset, ring, VirtQueue.addrOf,
      BitVec.toNat_add, BitVec.toNat_mul, BitVec.toNat_setWidth,
      BitVec.reduceToNat]
    omega
  | availFlags =>
    have := q.availAddr.isLt
    simp only [gpa, offset, ring, VirtQueue.addrOf]
    omega
  | availIdx | usedIdx =>
    simp only [gpa, availIdxGpa, usedIdxGpa, offset, ring,
      VirtQueue.addrOf, BitVec.toNat_add, BitVec.reduceToNat]
  | availEntry idx | usedEntry idx =>
    have hlt := (idx % q.size).isLt
    rw [hmod] at hlt
    simp only [gpa, availEntryGpa, usedEntryGpa, offset, ring,
      VirtQueue.addrOf, BitVec.toNat_add, BitVec.toNat_mul,
      BitVec.toNat_setWidth, BitVec.reduceToNat, hmod]
    omega
  | usedEvent | availEvent =>
    have := q.size.isLt
    simp only [gpa, usedEventGpa, availEventGpa, offset, ring,
      VirtQueue.addrOf, BitVec.toNat_add, BitVec.toNat_mul,
      BitVec.toNat_setWidth, BitVec.reduceToNat]
    omega

/-- A range a lookup answers for does not wrap. -/
theorem add_lt_of_lookup {s : AddressSpace} {gpa len : Nat}
    (h : (s.lookup gpa len).isSome) : gpa + len < 2 ^ 64 := by
  unfold AddressSpace.lookup at h
  cases hc : checkedAdd gpa len with
  | none =>
    rw [hc] at h
    cases h
  | some stop => exact (checkedAdd_some hc).2

/-- Once the rings passed the check, every word the queue reaches lies
inside the ranges that were checked. -/
theorem in_range {s : AddressSpace} (hr : q.RingsIn s)
    (hsize : q.size ≠ 0) (hmade : a.made q = true) :
    a.InRange q := by
  have hfits := offset_add_len_le hsize hmade
  have hlt := add_lt_of_lookup (hr a.ring).2.2
  have hsum : (a.gpa q).toNat = (q.addrOf a.ring).toNat + a.offset q := by
    rw [gpa_toNat, Nat.mod_eq_of_lt (by omega)]
  exact ⟨hsum, hfits, by omega⟩

end Access

end Rshyve.Virtio.Pci
