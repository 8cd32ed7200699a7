/-
# The guest physical address map

`vmm-core/src/mem.rs` and `mem/ctx.rs`: the published regions, the runs of
abutting RAM that share one tracked mapping, and the two lookups over them.
How a region is claimed and published is left out.

# What stands for what

- A guest address (`u64`) and a length (`usize`, 64 bits on every host the
  program runs on) are `Nat`; every addition the source checks is checked
  here against `2 ^ 64`.
- An `Arc<Mapping>` is its identity, its length and its protection. Two
  mappings are the same mapping exactly when their identities agree. The
  kernel hands identities out; nothing here inspects one.
- A `SubMapping` is a mapping, an offset into it, a length and a protection.
  The host address it stands for is the mapping's base plus the offset.
- The bytes of guest memory are one function from guest addresses
  (`GuestMem`): the tracked and the direct mapping of a page are two views
  of the same page, as on a real VM.
-/
import Rshyve.Data.Search

namespace Rshyve.Mem

-- ==== common, errors

/-- Standard page size in bytes (`PAGE_SIZE`). -/
def pageSize : Nat := 4096

/-- `u64::checked_add`. -/
def checkedAdd (a b : Nat) : Option Nat :=
  if a + b < 2 ^ 64 then some (a + b) else none

theorem checkedAdd_some {a b c : Nat} (h : checkedAdd a b = some c) :
    c = a + b ∧ a + b < 2 ^ 64 := by
  unfold checkedAdd at h
  split at h
  next hlt =>
    cases h
    exact ⟨rfl, hlt⟩
  · cases h

/-- The `{:#x}` rendering of a number. -/
def hex (n : Nat) : String := "0x" ++ String.ofList (Nat.toDigits 16 n)

/-- The `std::io::ErrorKind`s these functions report. -/
inductive ErrorKind where
  | invalidInput
  | addrNotAvailable
  | permissionDenied
  | other
  deriving DecidableEq, Repr

/-- `std::io::Error`. -/
structure IoError where
  kind : ErrorKind
  text : String
  deriving DecidableEq, Repr

/-- A fallible computation succeeds when both of its halves do. -/
theorem bind_eq_ok {ε α β : Type} {x : Except ε α} {f : α → Except ε β}
    {b : β} : (x >>= f) = .ok b ↔ ∃ a, x = .ok a ∧ f a = .ok b := by
  cases x with
  | error e => exact ⟨fun h => (nomatch h), fun ⟨_, h, _⟩ => (nomatch h)⟩
  | ok a => exact ⟨fun h => ⟨a, rfl, h⟩, fun ⟨_, h, hf⟩ => by cases h; exact hf⟩

-- ==== protections and mappings

/-- Page protection bits (`Prot`). -/
structure Prot where
  read : Bool
  write : Bool
  exec : Bool
  deriving DecidableEq, Repr

namespace Prot

def rw : Prot := ⟨true, true, false⟩
def rwx : Prot := ⟨true, true, true⟩
def rx : Prot := ⟨true, false, true⟩

/-- The bits in both. -/
def inter (p q : Prot) : Prot :=
  ⟨p.read && q.read, p.write && q.write, p.exec && q.exec⟩

end Prot

/-- A host mapping, known by its identity. -/
structure Mapping where
  id : Nat
  len : Nat
  prot : Prot
  deriving DecidableEq, Repr

/-- A borrowed view of part of a mapping. -/
structure SubMapping where
  backing : Mapping
  off : Nat
  len : Nat
  prot : Prot
  deriving DecidableEq, Repr

namespace SubMapping

/-- The view of a whole mapping. -/
def new (m : Mapping) : SubMapping := ⟨m, 0, m.len, m.prot⟩

/-- The part of a view at `offset`, if it fits. -/
def subregion (v : SubMapping) (offset len : Nat) : Option SubMapping :=
  (checkedAdd offset len).bind fun e =>
    if e > v.len then none
    else some ⟨v.backing, v.off + offset, len, v.prot⟩

/-- Take away every permission not in `prot`. -/
def restrict (v : SubMapping) (prot : Prot) : SubMapping :=
  { v with prot := v.prot.inter prot }

end SubMapping

-- ==== regions

/-- Type of a guest physical memory region. -/
inductive RegionKind where
  | ram
  | rom
  | mmio
  deriving DecidableEq, Repr

/-- The protection the guest gets on a region of `kind`. -/
def guestProtFor : RegionKind → Prot
  | .rom => .rx
  | .ram | .mmio => .rwx

/-- One mapping over a run of abutting RAM regions. -/
structure TrackedRun where
  gpa : Nat
  mapping : Mapping
  prot : Prot
  deriving DecidableEq, Repr

/-- The first guest address past the run (`TrackedRun::end`). -/
def TrackedRun.stop (r : TrackedRun) : Nat := r.gpa + r.mapping.len

/-- A region in the guest physical address space. -/
structure Region where
  gpa : Nat
  len : Nat
  kind : RegionKind
  tracked : TrackedRun
  direct : Mapping
  deriving DecidableEq, Repr

/-- The first guest address past the region (`Region::end`). -/
def Region.stop (r : Region) : Nat := r.gpa + r.len

/-- The 32-bit MMIO hole, up to the 4 GiB line. -/
def mmioHoleBase : Nat := 0xC0000000

def mmioHoleEnd : Nat := 0x100000000

/-- The published regions, sorted by address. -/
structure AddressSpace where
  regions : List Region
  deriving DecidableEq, Repr

namespace AddressSpace

/-- Where a region lies relative to `gpa`, as `region_at` compares. -/
def place (gpa : Nat) (r : Region) : Ordering :=
  if gpa < r.gpa then .gt else if gpa ≥ r.stop then .lt else .eq

/-- The region holding `gpa`, by binary search over the sorted list. -/
def regionAt (regions : List Region) (gpa : Nat) : Option Region :=
  match Search.search (place gpa) regions with
  | .ok i => regions[i]?
  | .error _ => none

/-- The tracked view of a range (`PhysMap::lookup`). -/
def lookup (s : AddressSpace) (gpa len : Nat) : Option SubMapping := do
  let stop ← checkedAdd gpa len
  let region ← regionAt s.regions gpa
  let run := region.tracked
  if stop > run.stop then none
  else
    let view ← (SubMapping.new run.mapping).subregion (gpa - run.gpa) len
    return view.restrict run.prot

/-- The direct view of a range, which stops at the end of one region
(`PhysMap::lookup_untracked`). -/
def lookupUntracked (s : AddressSpace) (gpa len : Nat) : Option SubMapping := do
  let stop ← checkedAdd gpa len
  let region ← regionAt s.regions gpa
  if stop > region.stop then none
  else (SubMapping.new region.direct).subregion (gpa - region.gpa) len

end AddressSpace

/-- A view is as long as the range that was looked up. -/
theorem lookup_len {s : AddressSpace} {gpa len : Nat} {v : SubMapping}
    (h : s.lookup gpa len = some v) : v.len = len := by
  unfold AddressSpace.lookup at h
  obtain ⟨stop, -, h⟩ := Option.bind_eq_some_iff.mp h
  obtain ⟨region, -, h⟩ := Option.bind_eq_some_iff.mp h
  dsimp only at h
  split at h
  · cases h
  obtain ⟨view, hview, h⟩ := Option.bind_eq_some_iff.mp h
  cases h
  unfold SubMapping.subregion at hview
  obtain ⟨e, -, hview⟩ := Option.bind_eq_some_iff.mp hview
  split at hview
  · cases hview
  · cases hview
    rfl

-- ==== guest memory

/-- An address space and the bytes behind it. -/
structure GuestMem where
  space : AddressSpace
  bytes : Nat → UInt8

/-- Overwrite the bytes from `gpa` on. -/
def poke (bytes : Nat → UInt8) (gpa : Nat) (data : List UInt8) : Nat → UInt8 :=
  fun a => if gpa ≤ a then (data[a - gpa]?).getD (bytes a) else bytes a

/-- The `len` bytes from `gpa` on. -/
def peek (bytes : Nat → UInt8) (gpa len : Nat) : List UInt8 :=
  (List.range len).map fun i => bytes (gpa + i)

/-- The error an unmapped range gets. -/
def unmapped (gpa len : Nat) : IoError :=
  ⟨.addrNotAvailable, "GPA " ++ hex gpa ++ " len " ++ toString len ++ " not mapped"⟩

namespace GuestMem

/-- What `SubMapping::read_bytes` checks before it copies. -/
def checkRead (v : SubMapping) (len : Nat) : Except IoError Unit :=
  if ¬ v.prot.read then
    .error ⟨.permissionDenied, "mapping is not readable"⟩
  else if len > v.len then
    .error ⟨.invalidInput, "read exceeds mapping bounds"⟩
  else .ok ()

/-- What `SubMapping::write_bytes` checks before it copies. -/
def checkWrite (v : SubMapping) (len : Nat) : Except IoError Unit :=
  if ¬ v.prot.write then
    .error ⟨.permissionDenied, "mapping is not writable"⟩
  else if len > v.len then
    .error ⟨.invalidInput, "write exceeds mapping bounds"⟩
  else .ok ()

/-- Whether `MemCtx::read` may copy `len` bytes out at `gpa`. -/
def readable (s : AddressSpace) (gpa len : Nat) : Except IoError Unit :=
  match s.lookupUntracked gpa len with
  | none => .error (unmapped gpa len)
  | some v => checkRead v len

/-- `MemCtx::read`: the bytes at a guest address. -/
def read (m : GuestMem) (gpa len : Nat) : Except IoError (List UInt8) := do
  readable m.space gpa len
  return peek m.bytes gpa len

/-- `MemCtx::write`: write bytes at a guest address. -/
def write (m : GuestMem) (gpa : Nat) (data : List UInt8) : Except IoError GuestMem :=
  match m.space.lookup gpa data.length with
  | none => .error (unmapped gpa data.length)
  | some v => do
    checkWrite v data.length
    return { m with bytes := poke m.bytes gpa data }

/-- `MemCtx::regions`: every region's address, length and kind. -/
def regions (m : GuestMem) : List (Nat × Nat × RegionKind) :=
  m.space.regions.map fun r => (r.gpa, r.len, r.kind)

end GuestMem

end Rshyve.Mem
