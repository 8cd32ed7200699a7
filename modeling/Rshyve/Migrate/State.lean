/-
# Kernel state

`vmm-migrate/src/state.rs` and `state/checks.rs`: the register blob a vCPU
travels as, the checks a payload has to pass, and the writes of an import.

# What is outside

The kernel answers every read and every write. A vCPU is given by its reads
(`Vcpu`); a write goes to a sink, and the import is written over any monad
that has one (`ImportSink`). The program's log is not modelled, nor are the
FPU blob and a device's name, which nothing reads.

# Panics

`none` is a panic: a slice past the end of its array. `parseVcpuRegs` comes
with the proof that it has none, which is where the checks and the import
take their plain result from.
-/
import Rshyve.Migrate.Codec

namespace Rshyve.Migrate

open Bytes (le ofLe)

-- ==== registers

/-- `vm_reg_name`, in the kernel's numbering. -/
inductive VmRegName where
  | rax | rbx | rcx | rdx | rsi | rdi | rbp
  | r8 | r9 | r10 | r11 | r12 | r13 | r14 | r15
  | cr0 | cr3 | cr4 | dr7 | rsp | rip | rflags
  | es | cs | ss | ds | fs | gs | ldtr | tr | idtr | gdtr
  | efer | cr2 | pdpte0 | pdpte1 | pdpte2 | pdpte3
  | intrShadow | dr0 | dr1 | dr2 | dr3 | dr6
  | entryInstLength | xcr0
  | last
  deriving DecidableEq, Repr

/-- The registers in the order of their numbers, with their `{:?}` names. -/
def vmRegNames : List (VmRegName × String) :=
  [(.rax, "VM_REG_GUEST_RAX"), (.rbx, "VM_REG_GUEST_RBX"),
    (.rcx, "VM_REG_GUEST_RCX"), (.rdx, "VM_REG_GUEST_RDX"),
    (.rsi, "VM_REG_GUEST_RSI"), (.rdi, "VM_REG_GUEST_RDI"),
    (.rbp, "VM_REG_GUEST_RBP"), (.r8, "VM_REG_GUEST_R8"),
    (.r9, "VM_REG_GUEST_R9"), (.r10, "VM_REG_GUEST_R10"),
    (.r11, "VM_REG_GUEST_R11"), (.r12, "VM_REG_GUEST_R12"),
    (.r13, "VM_REG_GUEST_R13"), (.r14, "VM_REG_GUEST_R14"),
    (.r15, "VM_REG_GUEST_R15"), (.cr0, "VM_REG_GUEST_CR0"),
    (.cr3, "VM_REG_GUEST_CR3"), (.cr4, "VM_REG_GUEST_CR4"),
    (.dr7, "VM_REG_GUEST_DR7"), (.rsp, "VM_REG_GUEST_RSP"),
    (.rip, "VM_REG_GUEST_RIP"), (.rflags, "VM_REG_GUEST_RFLAGS"),
    (.es, "VM_REG_GUEST_ES"), (.cs, "VM_REG_GUEST_CS"),
    (.ss, "VM_REG_GUEST_SS"), (.ds, "VM_REG_GUEST_DS"),
    (.fs, "VM_REG_GUEST_FS"), (.gs, "VM_REG_GUEST_GS"),
    (.ldtr, "VM_REG_GUEST_LDTR"), (.tr, "VM_REG_GUEST_TR"),
    (.idtr, "VM_REG_GUEST_IDTR"), (.gdtr, "VM_REG_GUEST_GDTR"),
    (.efer, "VM_REG_GUEST_EFER"), (.cr2, "VM_REG_GUEST_CR2"),
    (.pdpte0, "VM_REG_GUEST_PDPTE0"), (.pdpte1, "VM_REG_GUEST_PDPTE1"),
    (.pdpte2, "VM_REG_GUEST_PDPTE2"), (.pdpte3, "VM_REG_GUEST_PDPTE3"),
    (.intrShadow, "VM_REG_GUEST_INTR_SHADOW"), (.dr0, "VM_REG_GUEST_DR0"),
    (.dr1, "VM_REG_GUEST_DR1"), (.dr2, "VM_REG_GUEST_DR2"),
    (.dr3, "VM_REG_GUEST_DR3"), (.dr6, "VM_REG_GUEST_DR6"),
    (.entryInstLength, "VM_REG_GUEST_ENTRY_INST_LENGTH"),
    (.xcr0, "VM_REG_GUEST_XCR0"), (.last, "VM_REG_LAST")]

/-- `reg as u32`. -/
def VmRegName.toNat (r : VmRegName) : Nat :=
  vmRegNames.findIdx (·.1 = r)

def VmRegName.debug (r : VmRegName) : String :=
  ((vmRegNames[r.toNat]?).map Prod.snd).getD ""

/-- `id as i32`, for a `u32`. -/
def asI32 (id : Nat) : Int := if id < 2 ^ 31 then id else id - 2 ^ 32

/-- `vm_reg_name::from_repr`. -/
def VmRegName.fromRepr : Int → Option VmRegName
  | .ofNat n => (vmRegNames[n]?).map Prod.fst
  | .negSucc _ => none

structure SegDesc where
  base : UInt64
  limit : UInt32
  access : UInt32
  deriving DecidableEq, Repr

/-- Guest registers to export and import for each vCPU (`VCPU_REGS`). -/
def vcpuRegs : List VmRegName :=
  [.rax, .rbx, .rcx, .rdx, .rsi, .rdi, .rbp, .rsp, .r8, .r9, .r10, .r11, .r12, .r13, .r14, .r15,
    .rip, .rflags, .cr0, .cr3, .cr2, .cr4, .dr7, .efer, .xcr0,
    .cs, .ds, .es, .fs, .gs, .ss, .tr, .ldtr]

/-- Segment descriptor registers (`VCPU_SEG_DESCS`). -/
def vcpuSegDescs : List VmRegName :=
  [.cs, .ds, .es, .fs, .gs, .ss, .tr, .ldtr, .gdtr, .idtr]

-- ==== export

/-- A vCPU as its reads: each comes back with a value or an error. -/
structure Vcpu where
  getReg : VmRegName → Except String UInt64
  getSegmentDesc : VmRegName → Except String SegDesc

def regEntryLen : Nat := 12
def segEntryLen : Nat := 20
/-- Ends the plain register list and starts the descriptor list. -/
def segMarker : Nat := 0xffffffff

def regEntry (reg : VmRegName) (val : UInt64) : List UInt8 :=
  le 4 reg.toNat ++ le 8 val.toNat

def segEntry (reg : VmRegName) (desc : SegDesc) : List UInt8 :=
  le 4 reg.toNat ++ le 8 desc.base.toNat ++ le 4 desc.limit.toNat ++ le 4 desc.access.toNat

def exportVcpuRegs (vcpu : Vcpu) : Except MigrateError (List UInt8) := do
  let data ← vcpuRegs.foldlM (fun data reg => do
    let val ← (vcpu.getReg reg).mapError fun e =>
      .vmmData ("get_reg " ++ reg.debug ++ ": " ++ e)
    pure (data ++ regEntry reg val)) []
  let data := data ++ le 4 segMarker ++ le 8 vcpuSegDescs.length
  vcpuSegDescs.foldlM (fun data reg => do
    let desc ← (vcpu.getSegmentDesc reg).mapError fun e =>
      .vmmData ("get_segment_desc " ++ reg.debug ++ ": " ++ e)
    pure (data ++ segEntry reg desc)) data

-- ==== parse

/-- One register write decoded from a vCPU register blob. -/
inductive RegWrite where
  | reg (reg : VmRegName) (value : UInt64)
  | seg (reg : VmRegName) (desc : SegDesc)
  deriving DecidableEq, Repr

/-- `vcpu {vcpuid}: {text}`, as an error. -/
def vcpuError (vcpuid : Int) (text : String) : MigrateError :=
  .state ("vcpu " ++ toString vcpuid ++ ": " ++ text)

def regFromId (vcpuid : Int) (id : Nat) : Except MigrateError VmRegName :=
  match VmRegName.fromRepr (asI32 id) with
  | some .last | none =>
    .error (vcpuError vcpuid ("invalid register id " ++ toString id))
  | some reg => .ok reg

/-- `data[pos + off..pos + off + n]` for the `rest` that starts at `pos`. -/
def bytesAt (rest : List UInt8) (off n : Nat) : Option (List UInt8) :=
  if off + n ≤ rest.length then some ((rest.drop off).take n) else none

/-- The descriptor loop: `for _ in 0..count`. -/
def parseSegs (vcpuid : Int) : Nat → List UInt8 → List RegWrite →
      Option (Except MigrateError (List RegWrite))
  | 0, _, out => some (.ok out)
  | count + 1, rest, out => do
    let segId := ofLe (← bytesAt rest 0 4)
    let base := ofLe (← bytesAt rest 4 8)
    let limit := ofLe (← bytesAt rest 12 4)
    let access := ofLe (← bytesAt rest 16 4)
    match regFromId vcpuid segId with
    | .error e => some (.error e)
    | .ok reg =>
      let desc := ⟨.ofNat base, .ofNat limit, .ofNat access⟩
      parseSegs vcpuid count (rest.drop segEntryLen) (out ++ [.seg reg desc])

/-- `usize::try_from(count).ok().and_then(|c| c.checked_mul(SEG_ENTRY_LEN))`
for a 64-bit `usize`. -/
def segsLen (count : Nat) : Option Nat :=
  if count * segEntryLen < 2 ^ 64 then some (count * segEntryLen) else none

/-- What follows the marker of the descriptors. `rest` starts at the
marker. -/
def parseDescs (vcpuid : Int) (rest : List UInt8) (out : List RegWrite) :
    Option (Except MigrateError (List RegWrite)) :=
  if rest.length < 12 then
    some (.error (vcpuError vcpuid "register blob ends at the descriptor count"))
  else do
    let count := ofLe (← bytesAt rest 4 8)
    let rest := rest.drop 12
    match segsLen count with
    | none =>
      some (.error (vcpuError vcpuid ("register blob claims " ++ toString count ++ " descriptors")))
    | some want =>
      if rest.length ≠ want then
        some (.error (vcpuError vcpuid
          (toString count ++ " segment descriptors need " ++ toString want
            ++ " bytes, " ++ toString rest.length ++ " left")))
      else parseSegs vcpuid count rest out

/-- The `while` loop of `parse_vcpu_regs`, on the bytes from `pos` on. Every
round takes bytes, so one round for each byte and one more are enough. -/
def parseLoop (vcpuid : Int) : Nat → List UInt8 → List RegWrite →
      Option (Except MigrateError (List RegWrite))
  | 0, _, _ => none
  | fuel + 1, rest, out =>
    if rest.length = 0 then some (.ok out)
    else if rest.length < 4 then
      some (.error (vcpuError vcpuid ("register blob has " ++ toString rest.length
          ++ " trailing bytes")))
    else do
      let id := ofLe (← bytesAt rest 0 4)
      if id ≠ segMarker then
        if rest.length < regEntryLen then
          some (.error (vcpuError vcpuid
            ("register entry needs " ++ toString regEntryLen ++ " bytes, "
              ++ toString rest.length ++ " left")))
        else
          let value := ofLe (← bytesAt rest 4 8)
          match regFromId vcpuid id with
          | .error e => some (.error e)
          | .ok reg =>
            parseLoop vcpuid fuel (rest.drop regEntryLen) (out ++ [.reg reg (.ofNat value)])
      else parseDescs vcpuid rest out

def parseVcpuRegs (vcpuid : Int) (data : List UInt8) :
    Option (Except MigrateError (List RegWrite)) :=
  parseLoop vcpuid (data.length + 1) data []

-- ==== no panic

variable {rest : List UInt8}

theorem bytesAt_of_le {off n : Nat} (h : off + n ≤ rest.length) :
    bytesAt rest off n = some ((rest.drop off).take n) :=
  if_pos h

theorem parseSegs_isSome (vcpuid : Int) {count : Nat} (out : List RegWrite)
    (h : count * segEntryLen ≤ rest.length) :
    (parseSegs vcpuid count rest out).isSome := by
  induction count generalizing rest out with
  | zero => rfl
  | succ count ih =>
    have hlen : segEntryLen = 20 := rfl
    rw [Nat.succ_mul] at h
    rw [parseSegs, bytesAt_of_le (by omega), bytesAt_of_le (by omega),
      bytesAt_of_le (by omega), bytesAt_of_le (by omega)]
    simp only [Option.bind_eq_bind, Option.bind_some]
    split
    · rfl
    · exact ih _ (by rw [List.length_drop]; omega)

theorem parseDescs_isSome (vcpuid : Int) (rest : List UInt8)
    (out : List RegWrite) : (parseDescs vcpuid rest out).isSome := by
  unfold parseDescs
  split
  · rfl
  rw [bytesAt_of_le (by omega)]
  simp only [Option.bind_eq_bind, Option.bind_some]
  split
  · rfl
  case h_2 want hwant =>
    split
    · rfl
    case isFalse hlen =>
      unfold segsLen at hwant
      split at hwant
      · cases hwant
        exact parseSegs_isSome vcpuid out (by omega)
      · cases hwant

theorem parseLoop_isSome (vcpuid : Int) {fuel : Nat} (out : List RegWrite)
    (h : rest.length < fuel) : (parseLoop vcpuid fuel rest out).isSome := by
  induction fuel generalizing rest out with
  | zero => omega
  | succ fuel ih =>
    have hentry : regEntryLen = 12 := rfl
    unfold parseLoop
    split
    · rfl
    split
    · rfl
    rw [bytesAt_of_le (by omega)]
    simp only [Option.bind_eq_bind, Option.bind_some]
    split
    · split
      · rfl
      rw [bytesAt_of_le (by omega), Option.bind_some]
      split
      · rfl
      · exact ih _ (by rw [List.length_drop]; omega)
    · exact parseDescs_isSome vcpuid rest out

theorem parseVcpuRegs_isSome (vcpuid : Int) (data : List UInt8) :
    (parseVcpuRegs vcpuid data).isSome :=
  parseLoop_isSome vcpuid [] (by omega)

/-- `parse_vcpu_regs` for its callers, with the panic it does not have taken
out of its result. -/
def vcpuRegWrites (vcpuid : Int) (data : List UInt8) : Except MigrateError (List RegWrite) :=
  (parseVcpuRegs vcpuid data).get (parseVcpuRegs_isSome vcpuid data)

-- ==== payloads

def vdcMsr : Nat := 3
def vdcLapic : Nat := 5
def vdcVmmArch : Nat := 6
def vdcIoapic : Nat := 7
def vdcAtpit : Nat := 8
def vdcAtpic : Nat := 9
def vdcHpet : Nat := 10
def vdcPmTimer : Nat := 11
def vdcRtc : Nat := 12

/-- System devices to export and import: name, class and version. -/
def systemDevices : List (String × Nat × Nat) :=
  [("ioapic", vdcIoapic, 1), ("atpit", vdcAtpit, 1), ("atpic", vdcAtpic, 1),
    ("hpet", vdcHpet, 1), ("pm_timer", vdcPmTimer, 1), ("rtc", vdcRtc, 2)]

/-- One vCPU's state in the payload. -/
structure VcpuStatePayload where
  vcpuid : Int
  registers : List UInt8
  msrs : List UInt8
  lapic : List UInt8
  vmmArch : List UInt8
  runState : UInt32
  sipiVector : UInt8
  deriving DecidableEq, Repr

/-- One system device's state in the payload. -/
structure DevicePayload where
  cls : Nat
  version : Nat
  data : List UInt8
  deriving DecidableEq, Repr

/-- The part of a `DeviceState` that goes to the kernel: what its field
`kernel` stands for. -/
structure KernelState where
  vcpus : List VcpuStatePayload
  devices : List DevicePayload
  deriving DecidableEq, Repr

/-- `vdi_version_entry_v1`: the shape the local kernel has for one class and
version. -/
structure VersionEntry where
  cls : Nat
  version : Nat
  /-- the total length, 0 when variable -/
  lenExpect : Nat
  /-- the length of one list element, 0 when the class is not a list -/
  lenPerItem : Nat
  deriving DecidableEq, Repr

-- ==== checks

variable (layouts : List VersionEntry)

def findLayout (cls version : Nat) : Option VersionEntry :=
  layouts.find? fun e => e.cls = cls ∧ e.version = version

def checkClassBlob (what : String) (cls version len : Nat) : Except MigrateError Unit :=
  if len = 0 then
    .error (.state (what ++ ": class " ++ toString cls ++ " state is missing from the payload"))
  else
    match findLayout layouts cls version with
    | none =>
      let have_ := (layouts.filter (·.cls = cls)).map VersionEntry.version
      .error (.state (what ++ ": destination kernel does not have class "
        ++ toString cls ++ " version " ++ toString version
        ++ ", it has versions " ++ toString have_))
    | some entry =>
      if entry.lenPerItem ≠ 0 then
        if len % entry.lenPerItem ≠ 0 then
          .error (.state (what ++ ": " ++ toString len
            ++ " bytes is not a whole number of the destination kernel's "
            ++ toString entry.lenPerItem ++ "-byte entries for class "
            ++ toString cls))
        else .ok ()
      else if entry.lenExpect ≠ 0 ∧ len ≠ entry.lenExpect then
        .error (.state (what ++ ": " ++ toString len ++ " bytes, destination kernel expects "
          ++ toString entry.lenExpect ++ " for class " ++ toString cls
          ++ " version " ++ toString version))
      else .ok ()

/-- `size_of::<vdi_field_entry_v1>()`. -/
def fieldEntryLen : Nat := 16

def checkFieldEntryBlob (what : String) (cls version len : Nat) : Except MigrateError Unit := do
  checkClassBlob layouts what cls version len
  let item := ((findLayout layouts cls version).map VersionEntry.lenPerItem).getD 0
  if item ≠ fieldEntryLen then
    .error (.state (what ++ ": destination kernel uses " ++ toString item
      ++ "-byte entries for class " ++ toString cls
      ++ ", this build writes " ++ toString fieldEntryLen
      ++ "-byte entries"))
  else .ok ()

/-- The loop over the vCPU states. `seen` is the set of ids before it. -/
def checkVcpus (numCpus : Nat) : List VcpuStatePayload → List Int → Except MigrateError Unit
  | [], _ => .ok ()
  | vcpu :: vcpus, seen =>
    let id := vcpu.vcpuid
    if id < 0 ∨ id.toNat ≥ numCpus then
      .error (.state ("payload has vcpu id " ++ toString id ++ ", outside 0.." ++ toString numCpus))
    else if id ∈ seen then
      .error (.state ("payload has two states for vcpu " ++ toString id))
    else do
      let vcpuText := "vcpu " ++ toString id
      checkFieldEntryBlob layouts (vcpuText ++ " MSR") vdcMsr 1 vcpu.msrs.length
      checkFieldEntryBlob layouts (vcpuText ++ " VMM_ARCH") vdcVmmArch 1 vcpu.vmmArch.length
      checkClassBlob layouts (vcpuText ++ " LAPIC") vdcLapic 1 vcpu.lapic.length
      if vcpu.registers.length = 0 then
        .error (vcpuError id "register state is missing from the payload")
      else do
        let _ ← vcpuRegWrites id vcpu.registers
        checkVcpus numCpus vcpus (id :: seen)

/-- The loop over the system devices, with the set of classes seen, which it
returns. -/
def checkDevices : List DevicePayload → List Nat → Except MigrateError (List Nat)
  | [], seen => .ok seen
  | dev :: devs, seen =>
    match systemDevices.find? (·.2.1 = dev.cls) with
    | none =>
      .error (.state ("payload has an unknown device class " ++ toString dev.cls))
    | some (label, _, _) =>
      if dev.cls ∈ seen then
        .error (.state (label ++ ": payload has two states for class " ++ toString dev.cls))
      else do
        checkClassBlob layouts label dev.cls dev.version dev.data.length
        checkDevices devs (dev.cls :: seen)

/-- The last loop: every system class was seen. -/
def checkPresent (seen : List Nat) : List (String × Nat × Nat) → Except MigrateError Unit
  | [] => .ok ()
  | (name, cls, _) :: rest =>
    if cls ∈ seen then checkPresent seen rest
    else
      .error (.state (name ++ ": class " ++ toString cls ++ " state is missing from the payload"))

def checkDeviceState (state : KernelState) (numCpus : Nat) : Except MigrateError Unit :=
  if state.vcpus.length ≠ numCpus then
    .error (.state ("payload has " ++ toString state.vcpus.length
      ++ " vCPU states, this VM has " ++ toString numCpus ++ " vCPUs"))
  else do
    checkVcpus layouts numCpus state.vcpus []
    let seen ← checkDevices layouts state.devices []
    checkPresent seen systemDevices

-- ==== import

/-- One kernel write of an import (`ImportSink`'s methods). -/
inductive KernelWrite where
  | writeClass (cls version : Nat) (vcpuid : Option Int) (data : List UInt8)
  | writeReg (vcpuid : Int) (write : RegWrite)
  | setRunState (vcpuid : Int) (runState : UInt32) (sipiVector : UInt8)
  deriving DecidableEq, Repr

/-- Where the writes go. -/
abbrev ImportSink (m : Type → Type) : Type :=
  KernelWrite → ExceptT MigrateError m Unit

section Import

variable {m : Type → Type} [Monad m] (sink : ImportSink m)

/-- The system devices, in the local order. -/
def importSystem (state : KernelState) : List (String × Nat × Nat) → ExceptT MigrateError m Unit
  | [] => pure ()
  | (name, cls, _) :: rest =>
    match state.devices.find? (·.cls = cls) with
    | none =>
      throw (.state (name ++ ": class " ++ toString cls ++ " state is missing from the payload"))
    | some dev => do
      sink (.writeClass dev.cls dev.version none dev.data)
      importSystem state rest

/-- One vCPU: its MSRs and LAPIC before the registers, and VMM_ARCH last,
because it carries pending interrupts. -/
def importVcpu (vcpu : VcpuStatePayload) : ExceptT MigrateError m Unit := do
  let id := vcpu.vcpuid
  sink (.writeClass vdcMsr 1 (some id) vcpu.msrs)
  sink (.writeClass vdcLapic 1 (some id) vcpu.lapic)
  let writes ← ExceptT.mk (pure (vcpuRegWrites id vcpu.registers))
  writes.forM fun write => sink (.writeReg id write)
  sink (.setRunState id vcpu.runState vcpu.sipiVector)
  sink (.writeClass vdcVmmArch 1 (some id) vcpu.vmmArch)

def importDeviceStateInto (state : KernelState) (numCpus : Nat) : ExceptT MigrateError m Unit := do
  ExceptT.mk (pure (checkDeviceState layouts state numCpus))
  importSystem sink state systemDevices
  state.vcpus.forM (importVcpu sink)

/-- `import_device_state`. `versions` is what the read of the local class
shapes (`read_class_layouts`) comes back with. -/
def importDeviceState (versions : Except String (List VersionEntry))
    (state : KernelState) (numCpus : Nat) : ExceptT MigrateError m Unit := do
  let layouts ← ExceptT.mk (pure (versions.mapError fun e =>
    .state ("read local class versions: " ++ e)))
  importDeviceStateInto layouts sink state numCpus

end Import

end Rshyve.Migrate
