/-
# The Hyper-V enlightenment of a VM

`vmm-hyperv`: the synthetic MSRs a guest writes, and the two pages the
monitor puts into guest memory for them. An overlay page takes the place of
the guest's own bytes, which it keeps for the day the guest disables it or
moves it. The two kinds do not know of each other.

The handlers act on the MSRs and on guest memory together, so both are in
the state (`Inner`, `GuestMem`) and in the result. The rate limit of the
crash record, the CPUID leaves and the clock have no effect on either.
-/
import Rshyve.Data.Bytes
import Rshyve.Mem.PhysMap
import Rshyve.Vcpu.RunLoop

namespace Rshyve.Hyperv

open Mem (GuestMem pageSize peek)
open Vcpu (WrmsrOutcome)

-- ==== overlays

/-- An installed overlay, with the page the guest had there. -/
structure Overlay where
  gpa : Nat
  original : List UInt8
deriving DecidableEq, Repr

inductive OverlayError where
  | misaligned (gpa : Nat)
  | unmapped (gpa : Nat)
  | io (e : Mem.IoError)

namespace Overlay

def install (m : GuestMem) (gpa : Nat) (payload : List UInt8) :
    Except OverlayError (Overlay × GuestMem) :=
  if gpa % pageSize ≠ 0 then .error (.misaligned gpa)
  else
    match m.space.lookup gpa pageSize with
    | none => .error (.unmapped gpa)
    | some v =>
      match GuestMem.checkRead v pageSize, m.write gpa payload with
      | .error e, _ => .error (.io e)
      | .ok (), .error e => .error (.io e)
      | .ok (), .ok m' => .ok (⟨gpa, peek m.bytes gpa pageSize⟩, m')

/-- Best effort: a page that is no longer mapped is left alone. -/
def remove (m : GuestMem) (ov : Overlay) : GuestMem :=
  match m.write ov.gpa ov.original with
  | .ok m' => m'
  | .error _ => m

/-- Install, or keep none: a refusal is only logged. -/
def installed (m : GuestMem) (gpa : Nat) (payload : List UInt8) : Option Overlay × GuestMem :=
  match install m gpa payload with
  | .ok (ov, m') => (some ov, m')
  | .error _ => (none, m)

/-- The overlay a write of its MSR leaves, for a page other than the one it
is at: removed, installed, or removed and installed again. -/
def move (m : GuestMem) (old : Option Overlay) (enabled : Bool) (gpa : Nat)
    (payload : List UInt8) : Option Overlay × GuestMem :=
  match old, enabled with
  | some ov, true => installed (remove m ov) gpa payload
  | some ov, false => (none, remove m ov)
  | none, true => installed m gpa payload
  | none, false => (none, m)

end Overlay

-- ==== the pages

/-- `mov rax, 2; ret`, then zeros: every hypercall is refused. -/
def hypercallPage : List UInt8 :=
  [0x48, 0xc7, 0xc0, 0x02, 0x00, 0x00, 0x00, 0xc3] ++ List.replicate (pageSize - 8) 0

/-- The scale from guest ticks to 100 ns in 0.64 fixed point, if it fits. -/
def computeScale (freqHz : Nat) : Option Nat :=
  if freqHz = 0 then none
  else
    let scale := 10000000 * 2 ^ 64 / freqHz
    if scale / 2 ^ 64 ≠ 0 then none else some scale

/-- Sequence, reserved, scale and offset. A sequence of zero tells the guest
to fall back. -/
def referenceTscPage (scale : Option Nat) : List UInt8 :=
  Bytes.le 4 (if scale.isSome then 1 else 0) ++ Bytes.le 4 0 ++
    Bytes.le 8 (scale.getD 0) ++ Bytes.le 8 0 ++
    List.replicate (pageSize - 24) 0

-- ==== the MSRs

structure Features where
  referenceTsc : Bool
  reset : Bool
  tscFreqHz : Nat

structure Inner where
  msrGuestOsId : BitVec 64
  msrHypercall : BitVec 64
  msrReferenceTsc : BitVec 64
  hypercallOverlay : Option Overlay
  referenceTscOverlay : Option Overlay
  crashP : Nat → BitVec 64

def msrEnabled : BitVec 64 := 1
def msrLocked : BitVec 64 := 2

def enabled (msr : BitVec 64) : Bool := msr &&& msrEnabled != 0
def locked (msr : BitVec 64) : Bool := msr &&& msrLocked != 0

/-- The page an MSR names. -/
def gpaOf (msr : BitVec 64) : Nat := msr.toNat / pageSize * pageSize

namespace Inner

def new : Inner := ⟨0, 0, 0, none, none, fun _ => 0⟩

/-- No page of guest memory is covered. -/
def bare (i : Inner) : Bool :=
  i.hypercallOverlay.isNone && i.referenceTscOverlay.isNone

/-- GUEST_OS_ID. Zero also disables the hypercall page. -/
def handleWrGuestOsId (i : Inner) (m : GuestMem) (value : BitVec 64) : Inner × GuestMem :=
  let i := { i with msrGuestOsId := value }
  if value = 0 then
    let i := { i with msrHypercall := i.msrHypercall &&& ~~~msrEnabled }
    match i.hypercallOverlay with
    | some ov => ({ i with hypercallOverlay := none }, Overlay.remove m ov)
    | none => (i, m)
  else (i, m)

def handleWrHypercall (i : Inner) (m : GuestMem) (value : BitVec 64) : Inner × GuestMem :=
  -- a locked MSR keeps its value
  let new := if locked i.msrHypercall then i.msrHypercall else value
  let i := { i with msrHypercall := new }
  if i.msrGuestOsId = 0 then (i, m)
  else if enabled new ∧ i.hypercallOverlay.map Overlay.gpa = some (gpaOf new) then
    (i, m)
  else
    let (ov, m) :=
      Overlay.move m i.hypercallOverlay (enabled new) (gpaOf new) hypercallPage
    ({ i with hypercallOverlay := ov }, m)

/-- REFERENCE_TSC. A page that stays where it is is written again. -/
def handleWrReferenceTsc (f : Features) (i : Inner) (m : GuestMem)
    (value : BitVec 64) : Inner × GuestMem :=
  let i := { i with msrReferenceTsc := value }
  let page := referenceTscPage (computeScale f.tscFreqHz)
  if enabled value ∧ i.referenceTscOverlay.map Overlay.gpa = some (gpaOf value) then
    match m.write (gpaOf value) page with
    | .ok m' => (i, m')
    | .error _ => (i, m)
  else
    let (ov, m) :=
      Overlay.move m i.referenceTscOverlay (enabled value) (gpaOf value) page
    ({ i with referenceTscOverlay := ov }, m)

/-- A guest WRMSR. -/
def wrmsr (f : Features) (i : Inner) (m : GuestMem) (msr : Nat)
    (value : BitVec 64) : WrmsrOutcome × Inner × GuestMem :=
  match msr with
  | 0x40000000 => (.handled, i.handleWrGuestOsId m value)
  | 0x40000001 => (.handled, i.handleWrHypercall m value)
  | 0x40000003 =>
    if f.reset then (if value &&& 1 ≠ 0 then .reset else .handled, i, m)
    else (.gpException, i, m)
  | 0x40000021 =>
    if f.referenceTsc then (.handled, i.handleWrReferenceTsc f m value)
    else (.gpException, i, m)
  -- VP_INDEX and TIME_REF_COUNT are read-only
  | 0x40000002 | 0x40000020 => (.gpException, i, m)
  | 0x40000105 => (.handled, i, m)
  | _ =>
    if 0x40000100 ≤ msr ∧ msr ≤ 0x40000104 then
      (.handled,
        { i with
          crashP := Function.update i.crashP (msr - 0x40000100) value }, m)
    else (.notHandled, i, m)

/-- What the migration source does before its last pass: the guest's own
bytes back in place of both pages. The MSRs keep their values. -/
def pauseOverlays (i : Inner) (m : GuestMem) : Inner × GuestMem :=
  let m := match i.hypercallOverlay with
    | some ov => Overlay.remove m ov
    | none => m
  let m := match i.referenceTscOverlay with
    | some ov => Overlay.remove m ov
    | none => m
  ({ i with hypercallOverlay := none, referenceTscOverlay := none }, m)

/-- Where no page is covered there is nothing to take away. -/
theorem pauseOverlays_of_bare {i : Inner} (m : GuestMem)
    (h : i.bare = true) : i.pauseOverlays m = (i, m) := by
  obtain ⟨id, hyper, tsc, hov, tov, crash⟩ := i
  simp only [bare, Bool.and_eq_true, Option.isNone_iff_eq_none] at h
  obtain ⟨rfl, rfl⟩ := h
  rfl

end Inner

end Rshyve.Hyperv
