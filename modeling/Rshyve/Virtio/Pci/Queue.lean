/-
# A virtqueue as the transport programs it

`vmm-virtio/src/queue.rs`, the half the register faces reach: ring
addresses, ring size, the negotiated ring features and the check of the
addresses against guest memory. The half a backend reaches (heads and
cursors) is in `Virtio.Pci.Drain`.

Words are as wide as in the source. No addition of `set_addr_legacy` can
wrap: a page frame number has 32 bits and the rings of one queue span less
than a megabyte.
-/
import Rshyve.Mem.PhysMap
import Rshyve.Virtio.Queue

namespace Rshyve.Virtio.Pci

open Rshyve.Mem (AddressSpace)

/-- One of the three rings a split virtqueue is made of. -/
inductive Ring where
  | desc
  | avail
  | used
  deriving DecidableEq, Repr

namespace Ring

/-- The alignment the specification fixes for the ring. -/
def align : Ring → Nat
  | desc => 16
  | avail => 2
  | used => 4

def name : Ring → String
  | desc => "desc"
  | avail => "avail"
  | used => "used"

end Ring

/-- Why the device refuses the ring addresses a guest programmed. -/
inductive QueueAddrError where
  | unset (ring : Ring)
  | misaligned (ring : Ring) (addr : Nat)
  | unmapped (ring : Ring) (addr len : Nat)
  deriving DecidableEq, Repr

/-- The text of the refusal. -/
def QueueAddrError.text : QueueAddrError → String
  | unset ring => ring.name ++ " ring address is zero"
  | misaligned ring addr =>
    ring.name ++ " ring at " ++ Mem.hex addr ++ " is not aligned to " ++ toString ring.align
  | unmapped ring addr len =>
    ring.name ++ " ring at " ++ Mem.hex addr ++ " is not "
      ++ toString len ++ " bytes of guest memory"

/-- Why the device refuses the ring size a driver wrote. -/
inductive QueueSizeError where
  | invalid (size max : BitVec 16)
  | live
  deriving DecidableEq, Repr

def QueueSizeError.text : QueueSizeError → String
  | invalid size max =>
    "queue size " ++ toString size.toNat ++ " is not a power of two in 1..=" ++ toString max.toNat
  | live => "queue size written on a programmed ring"

/-- `u16::is_power_of_two`. -/
def isPowerOfTwo (n : BitVec 16) : Bool := n != 0 && n &&& (n - 1) == 0

/-- A split virtqueue. -/
structure VirtQueue where
  size : BitVec 16
  maxSize : BitVec 16
  descAddr : BitVec 64
  availAddr : BitVec 64
  usedAddr : BitVec 64
  lastAvailIdx : BitVec 16
  shadowUsedIdx : BitVec 16
  eventIdx : Bool
  indirectSupported : Bool
  addrsOk : Option Bool
  deriving DecidableEq, Repr

/-- The address `align_up` rounds to. -/
def alignUp (val align : BitVec 64) : BitVec 64 :=
  (val + align - 1) &&& ~~~(align - 1)

variable {mem : AddressSpace}

namespace VirtQueue

def new (size : BitVec 16) : VirtQueue :=
  ⟨size, size, 0, 0, 0, 0, 0, false, false, none⟩

/-- True once the guest programmed a descriptor table address. -/
def isConfigured (q : VirtQueue) : Bool := q.descAddr != 0

/-- Whether a driver may ask for rings of `size` entries. -/
def sizeOffered (q : VirtQueue) (size : BitVec 16) : Bool :=
  !(size == 0 || !isPowerOfTwo size || decide (size > q.maxSize))

/-- Take the ring size a modern driver wrote. -/
def setSize (q : VirtQueue) (size : BitVec 16) : Except QueueSizeError VirtQueue :=
  if !q.sizeOffered size then .error (.invalid size q.maxSize)
  else if q.isConfigured then .error .live
  else .ok { q with size := size }

/-- The feature adds a word to each ring, so a cached verdict of the address
check no longer applies once it changes. -/
def setEventIdx (q : VirtQueue) (enabled : Bool) : VirtQueue :=
  { q with
    eventIdx := enabled
    addrsOk := if q.eventIdx != enabled then none else q.addrsOk }

def setIndirectSupported (q : VirtQueue) (supported : Bool) : VirtQueue :=
  { q with indirectSupported := supported }

/-- Lay the three rings out from a legacy page frame number. Frame zero
takes the ring away; any other one leaves the cursors alone. -/
def setAddrLegacy (q : VirtQueue) (pfn : BitVec 32) : VirtQueue :=
  if pfn = 0 then
    { q with
      addrsOk := none, descAddr := 0, availAddr := 0, usedAddr := 0
      lastAvailIdx := 0, shadowUsedIdx := 0 }
  else
    let base := pfn.setWidth 64 * 4096
    let avail := base + q.size.setWidth 64 * 16
    -- flags, idx, one entry per descriptor and the event word
    let availEnd := avail + 6 + q.size.setWidth 64 * 2
    { q with
      addrsOk := none, descAddr := base, availAddr := avail
      usedAddr := alignUp availEnd 4096 }

/-- Set the three ring addresses the modern transport gives. -/
def setAddrModern (q : VirtQueue) (desc avail used : BitVec 64) : VirtQueue :=
  { q with
    addrsOk := none, descAddr := desc, availAddr := avail, usedAddr := used
    lastAvailIdx := 0, shadowUsedIdx := 0 }

def setLastAvailIdx (q : VirtQueue) (idx : BitVec 16) : VirtQueue :=
  { q with lastAvailIdx := idx }

def setShadowUsedIdx (q : VirtQueue) (idx : BitVec 16) : VirtQueue :=
  { q with shadowUsedIdx := idx }

/-- The legacy page frame number of the queue. -/
def pfn (q : VirtQueue) : BitVec 32 :=
  if q.descAddr = 0 then 0 else (q.descAddr / 4096).setWidth 32

/-- Take the rings away. The ring features stay: negotiation owns them. -/
def reset (q : VirtQueue) : VirtQueue :=
  { q with
    addrsOk := none, size := q.maxSize, descAddr := 0, availAddr := 0
    usedAddr := 0, lastAvailIdx := 0, shadowUsedIdx := 0 }

/-- The suppression field each ring has only under EVENT_IDX. -/
def eventFieldBytes (q : VirtQueue) : Nat := if q.eventIdx then 2 else 0

def descTableBytes (q : VirtQueue) : Nat := q.size.toNat * 16

def availRingBytes (q : VirtQueue) : Nat :=
  4 + q.size.toNat * 2 + q.eventFieldBytes

def usedRingBytes (q : VirtQueue) : Nat :=
  4 + q.size.toNat * 8 + q.eventFieldBytes

def addrOf (q : VirtQueue) : Ring → BitVec 64
  | .desc => q.descAddr
  | .avail => q.availAddr
  | .used => q.usedAddr

def bytesOf (q : VirtQueue) : Ring → Nat
  | .desc => q.descTableBytes
  | .avail => q.availRingBytes
  | .used => q.usedRingBytes

/-- One turn of the loop of `validate_addrs`. -/
def validateRing (q : VirtQueue) (mem : AddressSpace) (ring : Ring) : Except QueueAddrError Unit :=
  let addr := (q.addrOf ring).toNat
  let len := q.bytesOf ring
  if addr = 0 then .error (.unset ring)
  else if addr % ring.align ≠ 0 then .error (.misaligned ring addr)
  else if (mem.lookup addr len).isNone then .error (.unmapped ring addr len)
  else .ok ()

/-- Check the three ring addresses against the guest memory map. -/
def validateAddrs (q : VirtQueue) (mem : AddressSpace) : Except QueueAddrError Unit := do
  q.validateRing mem .desc
  q.validateRing mem .avail
  q.validateRing mem .used

/-- Whether the queue refused the addresses on its first use. -/
def needsReset (q : VirtQueue) : Bool := q.addrsOk == some false

/-- What a backend's handling of a kick leaves of a queue: the cursors it
moved to, and whether it looked at the ring at all. -/
structure Drain where
  lastAvail : BitVec 16
  shadowUsed : BitVec 16
  touched : Bool
  deriving DecidableEq, Repr

/-- A drained queue: the first look at the ring caches the address check,
and nothing is taken from a queue without rings or with refused ones. -/
def drained (q : VirtQueue) (mem : AddressSpace) (d : Drain) : VirtQueue :=
  if !(q.isConfigured && d.touched) then q
  else
    let ok := q.addrsOk.getD (q.validateAddrs mem).isOk
    if ok then
      { q with
        addrsOk := some true
        lastAvailIdx := d.lastAvail, shadowUsedIdx := d.shadowUsed }
    else { q with addrsOk := some false }

-- ==== what programming leaves alone

@[simp] theorem setAddrLegacy_eventIdx (q : VirtQueue) (pfn : BitVec 32) :
    (q.setAddrLegacy pfn).eventIdx = q.eventIdx := by
  unfold setAddrLegacy
  split <;> rfl

@[simp] theorem setAddrLegacy_indirectSupported (q : VirtQueue)
    (pfn : BitVec 32) :
    (q.setAddrLegacy pfn).indirectSupported = q.indirectSupported := by
  unfold setAddrLegacy
  split <;> rfl

@[simp] theorem setAddrLegacy_maxSize (q : VirtQueue) (pfn : BitVec 32) :
    (q.setAddrLegacy pfn).maxSize = q.maxSize := by
  unfold setAddrLegacy
  split <;> rfl

@[simp] theorem setAddrLegacy_size (q : VirtQueue) (pfn : BitVec 32) :
    (q.setAddrLegacy pfn).size = q.size := by
  unfold setAddrLegacy
  split <;> rfl

variable {q : VirtQueue}

/-- A size is taken by a queue without rings, if the device offers it. -/
theorem setSize_eq_ok {q' : VirtQueue} {size : BitVec 16} : q.setSize size = .ok q' ↔
      q.sizeOffered size = true ∧ q.isConfigured = false ∧ q' = { q with size := size } := by
  unfold setSize
  cases ho : q.sizeOffered size with
  | false => simp
  | true =>
    cases hc : q.isConfigured with
    | true => simp
    | false =>
      simp only [Bool.not_true, Bool.false_eq_true, if_false, Except.ok.injEq, true_and]
      exact eq_comm

/-- Handling a kick moves cursors and caches a verdict, nothing else. -/
theorem drained_eq (q : VirtQueue) (mem : AddressSpace) (d : Drain) :
    ∃ last used ok, q.drained mem d =
      { q with lastAvailIdx := last, shadowUsedIdx := used, addrsOk := ok } := by
  unfold drained
  split
  · exact ⟨_, _, _, rfl⟩
  · simp only []
    split
    · exact ⟨_, _, _, rfl⟩
    · exact ⟨_, _, _, rfl⟩

-- ==== what the check guarantees

/-- Rings that pass the check: none at zero, each aligned, each backed by
guest memory over all the bytes the device can reach. -/
def RingsIn (q : VirtQueue) (mem : AddressSpace) : Prop :=
  ∀ ring, (q.addrOf ring).toNat ≠ 0 ∧ (q.addrOf ring).toNat % ring.align = 0 ∧
    (mem.lookup (q.addrOf ring).toNat (q.bytesOf ring)).isSome

theorem validateRing_eq_ok {ring : Ring} : q.validateRing mem ring = .ok () ↔
      (q.addrOf ring).toNat ≠ 0 ∧ (q.addrOf ring).toNat % ring.align = 0 ∧
        (mem.lookup (q.addrOf ring).toNat (q.bytesOf ring)).isSome := by
  unfold validateRing
  simp only []
  split
  · rename_i h
    simp [h]
  split
  · rename_i _ h
    simp [h]
  split
  · rename_i _ _ h
    simp only [reduceCtorEq, false_iff, not_and]
    intro _ _ hsome
    rw [Option.isNone_iff_eq_none] at h
    rw [h] at hsome
    cases hsome
  · rename_i h₁ h₂ h₃
    simp only [true_iff]
    refine ⟨h₁, Decidable.not_not.1 h₂, ?_⟩
    cases h : mem.lookup (q.addrOf ring).toNat (q.bytesOf ring) with
    | none => rw [h] at h₃; exact absurd rfl h₃
    | some v => rfl

theorem validateAddrs_eq_ok : q.validateAddrs mem = .ok () ↔ q.RingsIn mem := by
  constructor
  · intro h
    obtain ⟨⟨⟩, hd, h⟩ := Mem.bind_eq_ok.1 h
    obtain ⟨⟨⟩, ha, hu⟩ := Mem.bind_eq_ok.1 h
    intro ring
    cases ring with
    | desc => exact validateRing_eq_ok.1 hd
    | avail => exact validateRing_eq_ok.1 ha
    | used => exact validateRing_eq_ok.1 hu
  · intro h
    refine Mem.bind_eq_ok.2 ⟨(), validateRing_eq_ok.2 (h .desc), ?_⟩
    exact Mem.bind_eq_ok.2 ⟨(), validateRing_eq_ok.2 (h .avail), validateRing_eq_ok.2 (h .used)⟩

/-- A queue whose rings pass is configured. -/
theorem RingsIn.isConfigured (h : q.RingsIn mem) : q.isConfigured = true := by
  have hd : q.descAddr.toNat ≠ 0 := (h .desc).1
  unfold VirtQueue.isConfigured
  rw [bne_iff_ne]
  intro hz
  rw [hz] at hd
  exact hd rfl

end VirtQueue

end Rshyve.Virtio.Pci
