/-
# Loads and stores of a device

`vmm-core/src/mem/mapping.rs`: what a device does with the view a lookup
gives it. `SubMapping::read::<T>` and `write::<T>` check the protection, the
length and the alignment of the host pointer; `write_bytes` checks the first
two. A mapping starts on a page of the host, so the pointer is aligned
exactly when the offset into the mapping is.

A device never sees why an access failed: it goes on without the word, or
without the store.

# Frames

`peek_poke_apart` is the one frame fact everything above uses: a store
leaves every byte outside its range alone.
-/
import Rshyve.Data.Bytes
import Rshyve.Mem.PhysMap

namespace Rshyve.Mem

-- ==== anonymous memory

/-- A region on its own, with one anonymous mapping behind both views. -/
def anonRegion (gpa len : Nat) (kind : RegionKind) : Region :=
  ⟨gpa, len, kind, ⟨gpa, ⟨0, len, .rw⟩, guestProtFor kind⟩, ⟨0, len, .rw⟩⟩

/-- `PhysMap::new_anon`. -/
def AddressSpace.newAnon (gpa len : Nat) : AddressSpace :=
  ⟨[anonRegion gpa len .ram]⟩

-- ==== bytes of a range

/-- Two ranges of guest addresses that do not meet. -/
def Apart (gpa len pos n : Nat) : Prop := gpa + len ≤ pos ∨ pos + n ≤ gpa

instance (gpa len pos n : Nat) : Decidable (Apart gpa len pos n) :=
  inferInstanceAs (Decidable (_ ∨ _))

@[simp] theorem peek_length (bytes : Nat → UInt8) (gpa len : Nat) :
    (peek bytes gpa len).length = len := by
  simp [peek]

variable {gpa pos : Nat} {data : List UInt8}

theorem peek_poke_apart {bytes : Nat → UInt8} {len : Nat} (h : Apart gpa len pos data.length) :
    peek (poke bytes pos data) gpa len = peek bytes gpa len := by
  unfold peek poke
  refine List.map_congr_left fun i hi => ?_
  have hlt : i < len := List.mem_range.1 hi
  rcases h with h | h
  · rw [if_neg (by omega)]
  · rw [if_pos (by omega), List.getElem?_eq_none (by omega)]
    rfl

theorem peek_poke_self {bytes : Nat → UInt8} {gpa : Nat} {data : List UInt8} :
    peek (poke bytes gpa data) gpa data.length = data := by
  unfold peek poke
  apply List.ext_getElem
  · simp
  · intro i h₁ h₂
    simp [h₂]

-- ==== the checks of a view

/-- What `SubMapping::read::<T>` checks, for a `T` of `size` bytes that wants
its address aligned to `align`. -/
def checkReadAs (v : SubMapping) (size align : Nat) : Except IoError Unit :=
  if ¬ v.prot.read then
    .error ⟨.permissionDenied, "mapping is not readable"⟩
  else if v.len < size then
    .error ⟨.invalidInput, "mapping too small for requested type"⟩
  else if v.off % align ≠ 0 then
    .error ⟨.invalidInput, "mapping not aligned for requested type"⟩
  else .ok ()

/-- What `SubMapping::write::<T>` checks. -/
def checkWriteAs (v : SubMapping) (size align : Nat) : Except IoError Unit :=
  if ¬ v.prot.write then
    .error ⟨.permissionDenied, "mapping is not writable"⟩
  else if v.len < size then
    .error ⟨.invalidInput, "mapping too small for requested type"⟩
  else if v.off % align ≠ 0 then
    .error ⟨.invalidInput, "mapping not aligned for requested type"⟩
  else .ok ()

/-- Whether a typed load of `size` bytes succeeds. -/
def canLoad (s : AddressSpace) (gpa size align : Nat) : Bool :=
  match s.lookup gpa size with
  | none => false
  | some v => (checkReadAs v size align).isOk

/-- Whether a typed store of `size` bytes succeeds. -/
def canStore (s : AddressSpace) (gpa size align : Nat) : Bool :=
  match s.lookup gpa size with
  | none => false
  | some v => (checkWriteAs v size align).isOk

/-- Whether a `write_bytes` of `len` bytes lands. -/
def lands (s : AddressSpace) (gpa len : Nat) : Bool :=
  match s.lookup gpa len with
  | none => false
  | some v => (GuestMem.checkWrite v len).isOk

variable {m : GuestMem}

namespace GuestMem

/-- `physmap.lookup(gpa, size)` and `read::<T>().ok()` of the view. -/
def load (m : GuestMem) (gpa size align : Nat) : Option (List UInt8) :=
  if canLoad m.space gpa size align then some (peek m.bytes gpa size)
  else none

/-- `physmap.lookup(gpa, size)` and `let _ = write::<T>(..)` of the view. -/
def store (m : GuestMem) (gpa align : Nat) (data : List UInt8) : GuestMem :=
  if canStore m.space gpa data.length align then
    { m with bytes := poke m.bytes gpa data }
  else m

@[simp] theorem store_space (m : GuestMem) (gpa align : Nat)
    (data : List UInt8) : (m.store gpa align data).space = m.space := by
  unfold store
  split <;> rfl

theorem load_poke_apart {gpa size align pos : Nat} {data : List UInt8}
    (h : Apart gpa size pos data.length) :
    ({ m with bytes := poke m.bytes pos data } : GuestMem).load gpa size align
      = m.load gpa size align := by
  unfold load
  simp only [peek_poke_apart h]

/-- A store apart from a range leaves what a load finds there. -/
theorem load_store_apart {gpa size align pos a : Nat} {data : List UInt8}
    (h : Apart gpa size pos data.length) :
    (m.store pos a data).load gpa size align = m.load gpa size align := by
  unfold store
  split
  · exact load_poke_apart h
  · rfl

/-- A store to a place that can be loaded is what a load finds, if it
lands. -/
theorem load_store_self (m : GuestMem) (gpa align a : Nat) (data : List UInt8) :
    (m.store gpa a data).load gpa data.length align = if canStore m.space gpa data.length a then
        (m.load gpa data.length align).map fun _ => data
      else m.load gpa data.length align := by
  unfold load store
  by_cases hs : canStore m.space gpa data.length a = true
  · simp only [if_pos hs, peek_poke_self]
    split <;> rfl
  · simp only [if_neg hs]

end GuestMem

-- ==== words

/-- The `u16` two bytes hold. -/
def wordOf (bs : List UInt8) : BitVec 16 := .ofNat 16 (Bytes.ofLe bs)

/-- A `u16` of guest memory, where it is mapped, readable and aligned. -/
def readWord (m : GuestMem) (gpa : Nat) : Option (BitVec 16) :=
  (m.load gpa 2 2).map wordOf

/-- A store of a `u16`, whose refusal the device ignores: an unmapped ring
has no recovery. -/
def storeWord (m : GuestMem) (gpa : Nat) (w : BitVec 16) : GuestMem :=
  m.store gpa 2 (Bytes.le 2 w.toNat)

@[simp] theorem storeWord_space (m : GuestMem) (gpa : Nat) (w : BitVec 16) :
    (storeWord m gpa w).space = m.space :=
  GuestMem.store_space m gpa 2 _

theorem readWord_store_apart {a : Nat} (h : Apart gpa 2 pos data.length) :
    readWord (m.store pos a data) gpa = readWord m gpa := by
  unfold readWord
  rw [GuestMem.load_store_apart h]

theorem readWord_storeWord_apart {w : BitVec 16} (h : Apart gpa 2 pos 2) :
    readWord (storeWord m pos w) gpa = readWord m gpa :=
  readWord_store_apart (by rwa [Bytes.le_length])

theorem wordOf_le (w : BitVec 16) : wordOf (Bytes.le 2 w.toNat) = w := by
  unfold wordOf
  rw [Bytes.ofLe_le_of_lt (by have := w.isLt; omega), BitVec.ofNat_toNat, BitVec.setWidth_eq]

/-- A word that is stored is the word that is read, if the store lands. -/
theorem readWord_storeWord (m : GuestMem) (gpa : Nat) (w : BitVec 16) :
    readWord (storeWord m gpa w) gpa =
      if canStore m.space gpa 2 2 then (readWord m gpa).map fun _ => w
      else readWord m gpa := by
  have h := m.load_store_self gpa 2 2 (Bytes.le 2 w.toNat)
  rw [Bytes.le_length] at h
  unfold readWord storeWord
  rw [h]
  split
  · rw [Option.map_map, Option.map_map]
    congr 1
    funext bs
    exact wordOf_le w
  · rfl

end Rshyve.Mem
