/-
# Where the devices sit on the buses

`vmm-core/src/aspace.rs` and the registration updates of the emulated PCI
devices (`vmm-virtio/src/pci/bus.rs`, `vmm-storage/src/nvme/regs.rs`,
`ahci/mod.rs`, `vmm-hid/src/xhci/mod.rs`, `fbuf/mod.rs`): what a config
write makes of the PIO and MMIO buses. The updates are one pattern with the
device's BARs as its data: for each BAR in turn, release what is recorded,
then register the BAR where its register says, if its command bit is set. A
register that fails leaves the BAR unmapped.

Config writes come one after the other here. What concurrent ones do to the
locks is in `Pci.Locks`.

# What stands for what

- A handler is the device and the BAR it serves (`Owner.dev`), or one of the
  regions the machine registers at start and never moves (`Owner.fixed`).
- The devices are a family over any index type.
- The framebuffer's BAR1 is guest memory, not a bus registration, and a
  passed-through device is not emulated; neither is modelled.
-/
import Rshyve.Data.RangeMap
import Rshyve.Pci.Bars

namespace Rshyve.Pci

-- ==== address spaces

/-- A bounded address space of disjoint regions; `stop` is inclusive. -/
structure ASpace (α : Type) where
  start : Nat
  stop : Nat
  map : List (RangeMap.Entry α)

inductive ASpaceError where
  | outOfRange
  | badLength
  | conflict
  | notFound
  deriving DecidableEq, Repr

/-- The last address of a region, none for an empty one or past `usize`. -/
def safeEnd (start len : Nat) : Option Nat :=
  if len = 0 then none
  else if start + len - 1 < 2 ^ 64 then some (start + len - 1) else none

namespace ASpace

variable {α : Type}

def register (s : ASpace α) (start len : Nat) (item : α) : Except ASpaceError (ASpace α) :=
  match safeEnd start len with
  | none => .error .badLength
  | some last =>
    if start < s.start ∨ start > s.stop ∨ last > s.stop then
      .error .outOfRange
    else if RangeMap.touches s.map start last then .error .conflict
    else .ok { s with map := RangeMap.insert s.map ⟨start, len, item⟩ }

def unregister (s : ASpace α) (start : Nat) : Except ASpaceError (ASpace α) :=
  if s.map.any fun e => e.start == start then
    .ok { s with map := RangeMap.erase s.map start }
  else .error .notFound

def regionAt (s : ASpace α) (point : Nat) : Except ASpaceError (RangeMap.Entry α) :=
  if point < s.start ∨ point > s.stop then .error .outOfRange
  else
    match RangeMap.lookup s.map point with
    | some e => .ok e
    | none => .error .notFound

end ASpace

-- ==== the devices

inductive BusKind where
  | pio
  | mmio
  deriving DecidableEq, Repr

/-- The command bit that enables decoding on a bus. -/
def BusKind.enable : BusKind → BitVec 16
  | .pio => ioEn
  | .mmio => mmioEn

/-- The last address of a bus: 64 K ports, 16 TiB of memory addresses. -/
def BusKind.last : BusKind → Nat
  | .pio => 0xffff
  | .mmio => 0x100000000000 - 1

/-- The emulated devices that put BARs on the buses. -/
inductive Family where
  | virtio (msix : Bool)
  | nvme
  | xhci
  | ahci
  | fbuf
  deriving DecidableEq, Repr

/-- The BARs a device registers, in the order its update visits them. -/
def Family.order : Family → List BarN
  | .virtio true => [0, 2, 4]
  | .virtio false => [0, 2]
  | .nvme => [0, 4]
  | .xhci => [0]
  | .ahci => [5]
  | .fbuf => [0]

/-- The bus a BAR goes on: only virtio's BAR0 is on the port bus. -/
def Family.busOf (f : Family) (bar : BarN) : BusKind :=
  match f with
  | .virtio _ => if bar = 0 then .pio else .mmio
  | _ => .mmio

/-- A device on the PCI bus: its header and the recorded bases. -/
structure Device where
  family : Family
  pci : DeviceState
  registered : BarN → Option Nat

/-- The address and size of a BAR as the device would register it on bus
`k`; a port is the low half of its register. -/
def barOn (k : BusKind) : BarDefine × BitVec 64 → Option (Nat × Nat)
  | (.pio size, addr) =>
    if k = .pio then some ((addr.setWidth 16).toNat, size.toNat) else none
  | (.mmio size, addr) =>
    if k = .mmio then some (addr.toNat, size.toNat) else none
  | (.mmio64 size, addr) =>
    if k = .mmio then some (addr.toNat, size.toNat) else none

/-- An enabled BAR: its start and its length. -/
def Device.enabledBar (d : Device) (bar : BarN) : Option (Nat × Nat) :=
  if bar ∈ d.family.order then
    let k := d.family.busOf bar
    if d.pci.command &&& k.enable = 0 then none
    else (d.pci.bars.get bar).bind (barOn k)
  else none

-- ==== the machine

variable {ι : Type}

/-- Who serves a region. -/
inductive Owner (ι : Type) where
  | dev (i : ι) (bar : BarN)
  | fixed (k : Nat)
  deriving DecidableEq, Repr

/-- The two buses and the devices on them. -/
structure Machine (ι : Type) where
  spaces : BusKind → ASpace (Owner ι)
  devs : ι → Device

namespace Machine

variable [DecidableEq ι]

def setSpace (m : Machine ι) (k : BusKind) (s : ASpace (Owner ι)) : Machine ι :=
  { m with spaces := Function.update m.spaces k s }

def setDev (m : Machine ι) (i : ι) (d : Device) : Machine ι :=
  { m with devs := Function.update m.devs i d }

def setRegistered (m : Machine ι) (i : ι) (bar : BarN) (r : Option Nat) : Machine ι :=
  m.setDev i { m.devs i with
    registered := Function.update (m.devs i).registered bar r }

/-- The bus a BAR of device `i` goes on. -/
def busOf (m : Machine ι) (i : ι) (bar : BarN) : BusKind :=
  (m.devs i).family.busOf bar

/-- Unregister the recorded base and clear the record (`release_pio`,
`release_mmio`). A bus that does not know the base is only logged. -/
def release (m : Machine ι) (i : ι) (bar : BarN) : Machine ι :=
  match (m.devs i).registered bar with
  | none => m
  | some addr =>
    let m' := m.setRegistered i bar none
    match (m.spaces (m.busOf i bar)).unregister addr with
    | .ok s => m'.setSpace (m.busOf i bar) s
    | .error _ => m'

/-- Register a BAR that is enabled and not at address zero, and record its
base on success. -/
def enroll (m : Machine ι) (i : ι) (bar : BarN) : Machine ι :=
  match (m.devs i).enabledBar bar with
  | none => m
  | some (addr, size) =>
    if addr = 0 then m
    else
      match (m.spaces (m.busOf i bar)).register addr size (.dev i bar) with
      | .error _ => m
      | .ok s =>
        (m.setRegistered i bar (some addr)).setSpace (m.busOf i bar) s

/-- What an update does about one BAR. -/
def refresh (i : ι) (m : Machine ι) (bar : BarN) : Machine ι :=
  (m.release i bar).enroll i bar

/-- `update_bar_registration` and `update_mmio_registration`. -/
def updateRegistration (m : Machine ι) (i : ι) : Machine ι :=
  (m.devs i).family.order.foldl (refresh i) m

/-- A guest's config write. -/
structure CfgWrite (ι : Type) where
  dev : ι
  offset : BitVec 8
  len : BitVec 8
  val : BitVec 32

/-- The header after a config write, the buses not yet updated. -/
def written (m : Machine ι) (w : CfgWrite ι) : Machine ι :=
  m.setDev w.dev { m.devs w.dev with
    pci := (m.devs w.dev).pci.cfgWrite w.offset w.len w.val }

def cfgWrite (m : Machine ι) (w : CfgWrite ι) : Machine ι :=
  if moves w.offset then (m.written w).updateRegistration w.dev
  else m.written w

def run (m : Machine ι) (ws : List (CfgWrite ι)) : Machine ι :=
  ws.foldl cfgWrite m

/-- Who gets a guest access (`PioBus::lookup`, `MmioBus::lookup`). -/
def reaches (m : Machine ι) (k : BusKind) (p : Nat) : Option (Owner ι) :=
  match (m.spaces k).regionAt p with
  | .ok e => some e.item
  | .error _ => none

/-- The bus at the moment a config write registers `bar` of its device: the
BARs before it are done, the ones after it are not. -/
def busAt (m : Machine ι) (w : CfgWrite ι) (bar : BarN) : ASpace (Owner ι) :=
  let m' := (((m.devs w.dev).family.order.takeWhile (· ≠ bar)).foldl
    (refresh w.dev) (m.written w)).release w.dev bar
  m'.spaces (m'.busOf w.dev bar)

/-- The start of a machine: fixed regions only, and no device decodes. -/
structure Initial (m : Machine ι) : Prop where
  bounds : ∀ k, (m.spaces k).start = 0 ∧ (m.spaces k).stop = k.last
  ok : ∀ k, RangeMap.Ok (m.spaces k).map
  fixed : ∀ k, ∀ e ∈ (m.spaces k).map, ∃ n, e.item = .fixed n
  command : ∀ i, (m.devs i).pci.command = intxDis
  registered : ∀ i bar, (m.devs i).registered bar = none

end Machine

end Rshyve.Pci
