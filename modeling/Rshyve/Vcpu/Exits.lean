/-
# Exits and entries of a vCPU

What the kernel hands back when a vCPU leaves the guest, what the monitor
makes of it (`VmExitKind.parse`), and the command the vCPU goes back in with
(`VmEntry.toRaw`).

The kernel's exit is a code and a union, and it guarantees that the variant
fits the code. `RawExit` carries that guarantee by its type: one constructor
for each code whose variant is read, and `other` for the codes that are not.
-/
import Mathlib
namespace Rshyve.Vcpu

-- ==== the raw side

/-- The kernel's `vm_inout`, in an exit and in an entry. -/
structure VmInout where
  bytes : BitVec 8
  flags : BitVec 8
  port : BitVec 16
  eax : BitVec 32
deriving DecidableEq, Repr

/-- The kernel's `vm_mmio`, in an exit and in an entry. -/
structure VmMmio where
  bytes : BitVec 8
  read : BitVec 8
  gpa : BitVec 64
  data : BitVec 64
deriving DecidableEq, Repr

def inoutIn : BitVec 8 := 1

/-- A guest access as the kernel reports it. -/
inductive RawAccess where
  | inout (io : VmInout)
  | mmio (mm : VmMmio)
deriving DecidableEq, Repr

inductive RawExit where
  | bogus
  | deprecated2
  | access (a : RawAccess)
  | rdmsr (code : BitVec 32)
  | wrmsr (code : BitVec 32) (wval : BitVec 64)
  | suspended (how : BitVec 32) (source : Int) (whenNs : Nat)
  | vmx (status : Int)
  | svm (exitcode : BitVec 64)
  | paging (gpa : BitVec 64) (faultType : Int)
  | instEmul (inst : Vector UInt8 15) (numValid : Nat)
  | hlt
  | debug
  | other (code : Int)
deriving DecidableEq

inductive RawEntry where
  | default
  | discardInstr
  | fulfillInout (io : VmInout)
  | fulfillMmio (mm : VmMmio)
deriving DecidableEq, Repr

-- ==== requests

structure IoPort where
  port : BitVec 16
  bytes : BitVec 8
deriving DecidableEq, Repr

inductive InoutReq where
  | «in» (io : IoPort)
  | out (io : IoPort) (val : BitVec 32)
deriving DecidableEq, Repr

inductive MmioReq where
  | read (addr : BitVec 64) (bytes : BitVec 8)
  | write (addr data : BitVec 64) (bytes : BitVec 8)
deriving DecidableEq, Repr

inductive Suspend where
  | halt
  | powerOff
  | reset
  | tripleFault (source : Int)
deriving DecidableEq, Repr

inductive VmExitKind where
  | bogus
  | inout (req : InoutReq)
  | mmio (req : MmioReq)
  | rdmsr (code : BitVec 32)
  | wrmsr (code : BitVec 32) (val : BitVec 64)
  | suspended (kind : Suspend) (whenNs : Nat)
  | vmxError (status : Int)
  | svmError (code : BitVec 64)
  | debug
  | paging (gpa : BitVec 64) (faultType : Int)
  | instEmul (inst : Vector UInt8 15) (numValid : Nat)
  | hlt
  | unknown (code : Int)

/-- The first API version with suspend details and without REQIDLE. -/
def apiV16 : Nat := 16

def exitcodeSuspended : Int := 14
def exitcodeDeprecated2 : Int := 20

namespace VmExitKind

def parseInout (io : VmInout) : InoutReq :=
  let port : IoPort := ⟨io.port, io.bytes⟩
  if io.flags &&& inoutIn ≠ 0 then .in port else .out port io.eax

def parseMmio (mm : VmMmio) : MmioReq :=
  if mm.read ≠ 0 then .read mm.gpa mm.bytes
  else .write mm.gpa mm.data mm.bytes

def parse (apiVersion : Nat) : RawExit → VmExitKind
  | .bogus => .bogus
  | .deprecated2 =>
    -- REQIDLE before v16
    if apiVersion < apiV16 then .bogus else .unknown exitcodeDeprecated2
  | .access (.inout io) => .inout (parseInout io)
  | .access (.mmio mm) => .mmio (parseMmio mm)
  | .rdmsr code => .rdmsr code
  | .wrmsr code wval => .wrmsr code wval
  | .suspended how source whenNs =>
    let validDetail := apiV16 ≤ apiVersion
    let at' := if validDetail then whenNs else 0
    match how.toNat with
    | 1 => .suspended .reset at'
    | 2 => .suspended .powerOff at'
    | 3 => .suspended .halt at'
    | 4 => .suspended (.tripleFault (if validDetail then source else -1)) at'
    | _ => .unknown exitcodeSuspended
  | .vmx status => .vmxError status
  | .svm code => .svmError code
  | .paging gpa faultType => .paging gpa faultType
  | .instEmul inst numValid => .instEmul inst numValid
  | .hlt => .hlt
  | .debug => .debug
  | .other code => .unknown code

end VmExitKind

-- ==== entries

inductive InoutRes where
  | «in» (io : IoPort) (val : BitVec 32)
  | out (io : IoPort)
deriving DecidableEq, Repr

inductive MmioRes where
  | read (addr data : BitVec 64) (bytes : BitVec 8)
  | write (addr : BitVec 64) (bytes : BitVec 8)
deriving DecidableEq, Repr

inductive VmEntry where
  | run
  | discardInstr
  | inoutFulfill (res : InoutRes)
  | mmioFulfill (res : MmioRes)
deriving DecidableEq, Repr

namespace VmEntry

def toRaw : VmEntry → RawEntry
  | .run => .default
  | .discardInstr => .discardInstr
  | .inoutFulfill (.in io val) =>
    .fulfillInout ⟨io.bytes, inoutIn, io.port, val⟩
  | .inoutFulfill (.out io) => .fulfillInout ⟨io.bytes, 0, io.port, 0⟩
  | .mmioFulfill (.read addr data bytes) => .fulfillMmio ⟨bytes, 1, addr, data⟩
  | .mmioFulfill (.write addr bytes) => .fulfillMmio ⟨bytes, 0, addr, 0⟩

/-- Whether an entry carries the result of an access. -/
def fulfills : VmEntry → Bool
  | .inoutFulfill _ | .mmioFulfill _ => true
  | .run | .discardInstr => false

end VmEntry

end Rshyve.Vcpu
