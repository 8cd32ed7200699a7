/-
# The run loop of a vCPU

One thread runs each vCPU: it enters the guest, handles the exit it comes
back with, and enters again with the command the exit calls for. An access
to a port or to device memory is served on one of the two buses, and the
next entry carries its result (`Loop.onExit`). An entry the kernel refuses,
because of a signal or because the VM is paused, is tried again, and
`Loop.onRefused` is what it is tried again with.

# The other side

The devices are a state `δ` that other threads change as well (`devices`).
The kernel (`Kernel`) keeps the access the guest waits for. It takes a
result that fits that access, and reports the access again on every later
entry until it has one. An entry it refuses changes nothing on its side.

`applied` and `delivered` are histories: every access served on a bus, with
the entry made from it, and every result the kernel took.
-/
import Rshyve.Conc.Trace
import Rshyve.Vcpu.Exits

namespace Rshyve.Vcpu

variable {δ : Type}

-- ==== the buses

/-- A handler sees the offset in its region and the width. A read fills an
eight byte buffer. -/
structure Handler (δ : Type) where
  read : δ → Nat → Nat → BitVec 64 × δ
  write : δ → Nat → Nat → BitVec 64 → δ

structure Region (δ : Type) where
  start : Nat
  len : Nat
  handler : Handler δ

/-- The regions of a bus in the order of their first address. -/
abbrev Bus (δ : Type) := List (Region δ)

namespace Bus

/-- The last region that starts at or before the address, if it reaches it. -/
def lookup (bus : Bus δ) (last addr : Nat) : Option (Nat × Handler δ) :=
  if last < addr then none
  else
    match (bus.filter (·.start ≤ addr)).getLast? with
    | some r =>
      if addr < r.start + r.len then some (addr - r.start, r.handler)
      else none
    | none => none

/-- The low `bytes` bytes of a buffer. -/
def low (bytes : Nat) (w : BitVec 64) : BitVec 64 :=
  (w.setWidth (8 * bytes)).setWidth 64

/-- A read of either bus. A width the bus does not have and an address
nobody registered read as ones. -/
def busRead (bus : Bus δ) (last : Nat) (widths : List Nat) (d : δ)
    (addr bytes : Nat) : BitVec 64 × δ :=
  if bytes ∈ widths then
    match bus.lookup last addr with
    | some (offset, h) =>
      let (buf, d') := h.read d offset bytes
      (low bytes buf, d')
    | none => (low bytes (BitVec.allOnes 64), d)
  else (BitVec.allOnes 64, d)

def busWrite (bus : Bus δ) (last : Nat) (widths : List Nat) (d : δ)
    (addr bytes : Nat) (val : BitVec 64) : δ :=
  if bytes ∈ widths then
    match bus.lookup last addr with
    | some (offset, h) => h.write d offset bytes (low bytes val)
    | none => d
  else d

def lastPort : Nat := 0xffff
def lastAddr : Nat := 0x100000000000 - 1
def pioWidths : List Nat := [1, 2, 4]
def mmioWidths : List Nat := [1, 2, 4, 8]

def handleIn (bus : Bus δ) (d : δ) (io : IoPort) : BitVec 32 × δ :=
  let (val, d') := bus.busRead lastPort pioWidths d io.port.toNat io.bytes.toNat
  (val.setWidth 32, d')

def handleOut (bus : Bus δ) (d : δ) (io : IoPort) (val : BitVec 32) : δ :=
  bus.busWrite lastPort pioWidths d io.port.toNat io.bytes.toNat (val.setWidth 64)

def handleRead (bus : Bus δ) (d : δ) (addr : BitVec 64) (bytes : BitVec 8) : BitVec 64 × δ :=
  bus.busRead lastAddr mmioWidths d addr.toNat bytes.toNat

def handleWrite (bus : Bus δ) (d : δ) (addr : BitVec 64) (bytes : BitVec 8) (val : BitVec 64) : δ :=
  bus.busWrite lastAddr mmioWidths d addr.toNat bytes.toNat val

end Bus

-- ==== the MSRs

inductive RdmsrOutcome where
  | handled (value : BitVec 64)
  | notHandled
  | gpException

inductive WrmsrOutcome where
  | handled
  | notHandled
  | gpException
  | reset

structure MsrHandler (δ : Type) where
  rdmsr : δ → Int → BitVec 32 → RdmsrOutcome × δ
  wrmsr : δ → Int → BitVec 32 → BitVec 64 → WrmsrOutcome × δ

inductive SuspendHow where
  | reset
  | halt
deriving DecidableEq, Repr

/-- What the loop asks of the kernel beside its entries. -/
inductive VcpuCall where
  | setRax (val : BitVec 64)
  | setRdx (val : BitVec 64)
  | injectGp
  | suspend (how : SuspendHow)
deriving DecidableEq, Repr

inductive VcpuEvent where
  | suspended (vcpuId : Int) (kind : Suspend)
  | error (vcpuId : Int) (error : String)
deriving DecidableEq, Repr

/-- What a vCPU thread is given. -/
structure Cpu (δ : Type) where
  vcpuId : Int
  apiVersion : Nat
  busPio : Bus δ
  busMmio : Bus δ
  msrHandler : Option (MsrHandler δ)

-- ==== the loop

structure Loop (δ : Type) where
  nextEntry : VmEntry
  discardedAt : Option (BitVec 64)
  running : Bool
  dev : δ
  calls : List VcpuCall
  events : List VcpuEvent

namespace Loop

def handleInout (c : Cpu δ) (d : δ) : InoutReq → InoutRes × δ
  | .in io =>
    let (val, d') := c.busPio.handleIn d io
    (.in io val, d')
  | .out io val => (.out io, c.busPio.handleOut d io val)

def handleMmio (c : Cpu δ) (d : δ) : MmioReq → MmioRes × δ
  | .read addr bytes =>
    let (data, d') := c.busMmio.handleRead d addr bytes
    (.read addr data bytes, d')
  | .write addr data bytes =>
    (.write addr bytes, c.busMmio.handleWrite d addr bytes data)

def writeMsrResult (value : BitVec 64) : List VcpuCall :=
  [.setRax ((value.setWidth 32).setWidth 64), .setRdx (((value >>> 32).setWidth 32).setWidth 64)]

def handleRdmsr (c : Cpu δ) (d : δ) (code : BitVec 32) : List VcpuCall × δ :=
  match c.msrHandler with
  | none => (writeMsrResult 0, d)
  | some h =>
    match h.rdmsr d c.vcpuId code with
    | (.handled value, d') => (writeMsrResult value, d')
    | (.gpException, d') => ([.injectGp], d')
    | (.notHandled, d') => (writeMsrResult 0, d')

def handleWrmsr (c : Cpu δ) (d : δ) (code : BitVec 32) (val : BitVec 64) : List VcpuCall × δ :=
  match c.msrHandler with
  | none => ([], d)
  | some h =>
    match h.wrmsr d c.vcpuId code val with
    | (.handled, d') | (.notHandled, d') => ([], d')
    | (.gpException, d') => ([.injectGp], d')
    | (.reset, d') => ([.suspend .reset], d')

/-- Halt the VM, report why and leave the loop. -/
def fatalExit (c : Cpu δ) (l : Loop δ) (reason : String) : Loop δ :=
  { l with
    running := false
    calls := l.calls ++ [.suspend .halt]
    events := l.events ++ [.error c.vcpuId reason] }

def hexDigits (n : Nat) : String := String.ofList (Nat.toDigits 16 n)

def hexByte (b : UInt8) : String :=
  if b.toNat < 16 then "0" ++ hexDigits b.toNat else hexDigits b.toNat

/-- Whether to discard the instruction at `rip`: once, unless another one
was discarded since. -/
def shouldDiscardOnce (rip : BitVec 64) (last : Option (BitVec 64)) : Bool :=
  last != some rip

def onExit (c : Cpu δ) (l : Loop δ) (rip : BitVec 64) : VmExitKind → Loop δ
  | .bogus | .debug | .hlt => { l with nextEntry := .run }
  | .inout req =>
    let (res, d) := handleInout c l.dev req
    { l with nextEntry := .inoutFulfill res, dev := d }
  | .mmio req =>
    let (res, d) := handleMmio c l.dev req
    { l with nextEntry := .mmioFulfill res, dev := d }
  | .rdmsr code =>
    let (calls, d) := handleRdmsr c l.dev code
    { l with nextEntry := .run, dev := d, calls := l.calls ++ calls }
  | .wrmsr code val =>
    let (calls, d) := handleWrmsr c l.dev code val
    { l with nextEntry := .run, dev := d, calls := l.calls ++ calls }
  | .suspended kind _ =>
    { l with
      running := false
      events := l.events ++ [.suspended c.vcpuId kind] }
  | .instEmul inst numValid =>
    if shouldDiscardOnce rip l.discardedAt then
      { l with nextEntry := .discardInstr, discardedAt := some rip }
    else
      let instHex := " ".intercalate ((inst.toList.take numValid).map hexByte)
      l.fatalExit c ("unsupported instruction at RIP 0x" ++
        hexDigits rip.toNat ++ ": [" ++ instHex ++ "]")
  | .vmxError status => l.fatalExit c ("VMX error, status " ++ toString status)
  | .svmError code =>
    l.fatalExit c ("SVM error, code " ++ toString code.toNat)
  | .paging gpa faultType =>
    l.fatalExit c ("unhandled paging fault at GPA 0x" ++
      hexDigits gpa.toNat ++ ", fault type " ++ toString faultType)
  | .unknown code => l.fatalExit c ("unknown exit code " ++ toString code)

/-- An entry refused for a signal or for a pause: the loop enters again with
a plain run, whatever it was about to carry. -/
def onRefused (l : Loop δ) : Loop δ := { l with nextEntry := .run }

/-- Any other failure of an entry ends the loop. -/
def onFailed (c : Cpu δ) (l : Loop δ) (error : String) : Loop δ :=
  { l with
    running := false
    events := l.events ++ [.error c.vcpuId error] }

end Loop

-- ==== the kernel

/-- The kernel's side of one vCPU: the access the guest waits for, every
access the guest has made, and every result taken for one. -/
structure Kernel where
  pending : Option RawAccess
  issued : List RawAccess
  delivered : List (RawAccess × RawEntry)

/-- A result fits an access of its kind, place, width and direction. -/
def RawEntry.fits : RawEntry → RawAccess → Bool
  | .fulfillInout r, .inout a =>
    r.port == a.port && r.bytes == a.bytes && (r.flags &&& inoutIn) == (a.flags &&& inoutIn)
  | .fulfillMmio r, .mmio a =>
    r.gpa == a.gpa && r.bytes == a.bytes && (r.read == 0) == (a.read == 0)
  | _, _ => false

def RawExit.accessed : RawExit → Option RawAccess
  | .access a => some a
  | _ => none

namespace Kernel

/-- Start an entry: take the result it carries, or drop what is pending. -/
def accept (k : Kernel) (e : RawEntry) : Kernel :=
  match k.pending with
  | none => k
  | some a =>
    if e.fits a then
      { k with pending := none, delivered := k.delivered ++ [(a, e)] }
    else if e = .discardInstr then { k with pending := none }
    else k

/-- Leave the guest. While an access waits for its result the guest makes no
other. -/
def report (k : Kernel) (x : RawExit) : Option Kernel :=
  match x.accessed, k.pending with
  | none, _ => some k
  | some a, none => some { k with pending := some a, issued := k.issued ++ [a] }
  | some a, some b => if a = b then some k else none

end Kernel

-- ==== the machine

/-- One access served on a bus: the devices it found and left, and the entry
made from its result. -/
structure Served (δ : Type) where
  access : RawAccess
  before : δ
  entry : VmEntry
  after : δ

structure Machine (δ : Type) where
  loop : Loop δ
  kernel : Kernel
  applied : List (Served δ)

/-- What an entry can come back with, and a change of the devices by another
thread. A pause, a resume or a signal shows in which of these comes next. -/
inductive Input (δ : Type) where
  | interrupted
  | paused
  | failed (error : String)
  | exit (rip : BitVec 64) (raw : RawExit)
  | devices (d : δ)

namespace Machine

def start (d : δ) : Machine δ where
  loop := ⟨.run, none, true, d, [], []⟩
  kernel := ⟨none, [], []⟩
  applied := []

/-- The history after an exit. -/
def record (before after : Loop δ) (x : RawExit) (applied : List (Served δ)) : List (Served δ) :=
  match x.accessed with
  | some a => applied ++ [⟨a, before.dev, after.nextEntry, after.dev⟩]
  | none => applied

def step (c : Cpu δ) (m : Machine δ) : Input δ → Option (Machine δ)
  | .devices d => some { m with loop := { m.loop with dev := d } }
  | .interrupted | .paused =>
    if m.loop.running then some { m with loop := m.loop.onRefused } else none
  | .failed error =>
    if m.loop.running then some { m with loop := m.loop.onFailed c error }
    else none
  | .exit rip raw =>
    if m.loop.running then
      ((m.kernel.accept m.loop.nextEntry.toRaw).report raw).map fun k =>
        let l := m.loop.onExit c rip (.parse c.apiVersion raw)
        ⟨l, k, record m.loop l raw m.applied⟩
    else none

end Machine

end Rshyve.Vcpu
