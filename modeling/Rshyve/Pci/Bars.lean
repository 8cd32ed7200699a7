/-
# BARs and the command register

`vmm-devices/src/pci/bar.rs` and the writes of `pci/device.rs`: six base
address registers with their masks, the writable command bits, and which
register a config write of a given offset and width reaches. Reads of the
header, the sizing result of a BAR write (no caller of `cfg_write` looks at
it) and the identification fields are left out.
-/
import Mathlib

namespace Rshyve.Pci

/-- A BAR slot. -/
abbrev BarN := Fin 6

instance instNeZeroBars : NeZero 6 := ⟨by decide⟩

/-- The type and size of a BAR. -/
inductive BarDefine where
  | pio (size : BitVec 16)
  | mmio (size : BitVec 32)
  | mmio64 (size : BitVec 64)
  deriving DecidableEq, Repr

/-- What a BAR slot is; the high half of a 64-bit BAR follows its low. -/
inductive EntryKind where
  | empty
  | pio (size : BitVec 16)
  | mmio (size : BitVec 32)
  | mmio64 (size : BitVec 64)
  | mmio64High
  deriving DecidableEq, Repr

structure BarEntry where
  kind : EntryKind
  value : BitVec 64
  deriving DecidableEq, Repr

/-- The six BAR registers. -/
structure Bars where
  entries : BarN → BarEntry

namespace Bars

def new : Bars := ⟨fun _ => ⟨.empty, 0⟩⟩

def setKind (b : Bars) (bar : BarN) (kind : EntryKind) : Bars :=
  ⟨Function.update b.entries bar { b.entries bar with kind := kind }⟩

def setValue (b : Bars) (bar : BarN) (value : BitVec 64) : Bars :=
  ⟨Function.update b.entries bar { b.entries bar with value := value }⟩

/-- Define a BAR in a free slot; a 64-bit one also takes the next. -/
def define (b : Bars) (bar : BarN) : BarDefine → Bars
  | .pio size => b.setKind bar (.pio size)
  | .mmio size => b.setKind bar (.mmio size)
  | .mmio64 size => (b.setKind bar (.mmio64 size)).setKind (bar + 1) .mmio64High

/-- Write a BAR register. The value is masked to the BAR's alignment. -/
def regWrite (b : Bars) (bar : BarN) (val : BitVec 32) : Bars :=
  match (b.entries bar).kind with
  | .empty => b
  | .pio size =>
    b.setValue bar ((val &&& (~~~(size - 1)).setWidth 32).setWidth 64)
  | .mmio size => b.setValue bar ((val &&& ~~~(size - 1)).setWidth 64)
  | .mmio64 size =>
    let low := val &&& (~~~(size - 1)).setWidth 32
    b.setValue bar (((b.entries bar).value &&& 0xffffffff00000000)
      ||| low.setWidth 64)
  | .mmio64High =>
    match (b.entries (bar - 1)).kind with
    | .mmio64 size =>
      let high := ((val.setWidth 64 <<< 32) &&& ~~~(size - 1)) &&& 0xffffffff00000000
      b.setValue (bar - 1) (high ||| ((b.entries (bar - 1)).value &&& 0xffffffff))
    | _ => b

/-- The definition and the current address, of a low slot. -/
def get (b : Bars) (bar : BarN) : Option (BarDefine × BitVec 64) :=
  match (b.entries bar).kind with
  | .empty | .mmio64High => none
  | .pio size => some (.pio size, (b.entries bar).value)
  | .mmio size => some (.mmio size, (b.entries bar).value)
  | .mmio64 size => some (.mmio64 size, (b.entries bar).value)

end Bars

-- ==== the header

def ioEn : BitVec 16 := 1
def mmioEn : BitVec 16 := 2
def busmstrEn : BitVec 16 := 4
def intxDis : BitVec 16 := 0x400

/-- The command bits a guest may write, which are all there are. -/
def cmdWritable : BitVec 16 := ioEn ||| mmioEn ||| busmstrEn ||| intxDis

/-- The part of the Type 0 header that a config write changes. -/
structure DeviceState where
  command : BitVec 16
  bars : Bars
  intrLine : BitVec 8

def sizeMask (len : BitVec 8) : BitVec 32 :=
  if len = 1 then 0xff else if len = 2 then 0xffff else 0xffffffff

namespace DeviceState

/-- The command register starts as `INTX_DIS`, and no BAR is defined. -/
def new : DeviceState := ⟨intxDis, .new, 0xff⟩

/-- A write of `len` bytes to the low half of the command dword. -/
def writeCommand (d : DeviceState) (byteOff : Nat) (len : BitVec 8)
    (val : BitVec 32) : DeviceState :=
  let shift := byteOff * 8
  let mask := sizeMask len <<< shift
  let newBits := (d.command.setWidth 32 &&& ~~~mask)
    ||| ((val <<< shift) &&& mask)
  { d with
    command := ((newBits.setWidth 16 &&& cmdWritable)
      ||| (d.command &&& ~~~cmdWritable)) &&& cmdWritable }

/-- Write to the standard header. BARs take aligned dwords only. -/
def cfgWrite (d : DeviceState) (offset len : BitVec 8) (val : BitVec 32) : DeviceState :=
  let dword := offset.toNat / 4 * 4
  let byteOff := offset.toNat % 4
  if offset ≥ 0x40 then d
  else if dword = 0x04 ∧ byteOff < 2 then d.writeCommand byteOff len val
  else if h : 0x10 ≤ dword ∧ dword ≤ 0x24 then
    if byteOff = 0 ∧ len = 4 then
      { d with bars := d.bars.regWrite ⟨(dword - 0x10) / 4, by omega⟩ val }
    else d
  else if dword = 0x3c ∧ byteOff = 0 ∧ len ≥ 1 then
    { d with intrLine := val.setWidth 8 }
  else d

end DeviceState

/-- A write that can move the device on the buses: to the command register
or to a BAR, of whatever width. -/
def moves (offset : BitVec 8) : Bool :=
  let dword := offset.toNat / 4 * 4
  dword == 0x04 || (decide (0x10 ≤ dword) && decide (dword ≤ 0x24))

/-- Any other write leaves the decode alone. -/
theorem DeviceState.cfgWrite_of_not_moves {offset : BitVec 8}
    (h : moves offset = false) (d : DeviceState) (len : BitVec 8)
    (val : BitVec 32) :
    (d.cfgWrite offset len val).command = d.command ∧
      (d.cfgWrite offset len val).bars = d.bars := by
  simp only [moves, Bool.or_eq_false_iff, beq_eq_false_iff_ne,
    Bool.and_eq_false_iff, decide_eq_false_iff_not] at h
  unfold DeviceState.cfgWrite
  simp only []
  split
  · exact ⟨rfl, rfl⟩
  split
  · rename_i hcmd
    exact absurd hcmd.1 h.1
  split
  · rename_i hbar
    rcases h.2 with hlo | hhi
    · exact absurd hbar.1 hlo
    · exact absurd hbar.2 hhi
  split
  · exact ⟨rfl, rfl⟩
  · exact ⟨rfl, rfl⟩

end Rshyve.Pci
