/-
# Interrupt pins

`vmm-core/src/intr_pins.rs`, and the routing registers that the LPC bridge
of `vmm-devices/src/chipset/i440fx.rs` keeps for it. A pin is an ISA line of
`LegacyPIC` or an INTx line of `PciIntrRoutes`. Both keep a level for each
line that devices share, and call the kernel when a level leaves or reaches
zero.

# What stands for what

- A pin's own mutex is held for the whole of a call, so the calls on one pin
  run one after the other: a pin is a thread, and `begin` and `finish` are its
  mutex. The tables of levels have a mutex each (`Table`).
- The tables outlive their pins, and every VM has a handle. Logging is left
  out.

# The kernel

The kernel counts the asserts of each ATPIC and IOAPIC line. A line is high
while its count is not zero, and a count stays at zero when it is lowered
there. A call on both chips is one step. A refused call changes nothing.
-/
import Rshyve.Conc.Pool
import Rshyve.Conc.Locks

namespace Rshyve.Intr

open Conc Function

-- ==== the levels

inductive PinOp where
  | assert
  | deassert
  | pulse
  deriving DecidableEq, Repr

/-- `Entry::process_op`: whether the kernel is to be told, and the new
level. -/
def processOp (level : Nat) : PinOp → Bool × Nat
  | .assert => (level + 1 == 1, level + 1)
  | .deassert => if level = 0 then (false, 0) else (level - 1 == 0, level - 1)
  | .pulse => (level == 0, level)

/-- `Entry::undo_op`. -/
def undoOp (level : Nat) : PinOp → Nat
  | .assert => level - 1
  | .deassert => level + 1
  | .pulse => level

/-- A line of one of the two tables. -/
inductive Line where
  | isa (irq : Fin 16)
  | gsi (n : Fin 8)
  deriving DecidableEq, Repr

def pciGsiBase : Nat := 16

/-- The IOAPIC line. -/
def Line.ioapic : Line → Nat
  | .isa irq => irq
  | .gsi n => pciGsiBase + n

/-- `LegacyPIC::inner` and `PciIntrRoutes::inner`. -/
inductive Table where
  | pic
  | routes
  deriving DecidableEq, Repr

-- ==== the pins

/-- `LegacyPin` and `PciIntrPin`, by what they are made from. -/
inductive Wire where
  | legacy (irq : Fin 16)
  | pci (slot pin : Nat)
  deriving DecidableEq, Repr

namespace Wire

def table : Wire → Table
  | legacy _ => .pic
  | pci .. => .routes

def line : Wire → Line
  | legacy irq => .isa irq
  | pci slot pin => .gsi ⟨(4 + slot + pin) % 8, Nat.mod_lt _ (by decide)⟩

end Wire

/-- The routing register of an INTx line. -/
def pirqIdx (slot pin : Nat) : Fin 4 :=
  ⟨(slot + pin) % 4, Nat.mod_lt _ (by decide)⟩

/-- The ATPIC line that a routing register names. -/
def atpicIrq (val : BitVec 8) : Option Nat :=
  if val &&& 0x80 ≠ 0 then none
  else
    let irq := (val &&& 0x0F).toNat
    if 0 < irq then some irq else none

inductive Op where
  -- the pin's mutex, and the flag under it
  | begin
  | finish
  | asserted
  | setAsserted (b : Bool)
  -- the tables
  | lock (m : Table)
  | unlock (m : Table)
  | processOp (l : Line) (op : PinOp)
  | undoOp (l : Line) (op : PinOp)
  | atpicIrq (pirq : Fin 4)
  -- the kernel
  | isaIrq (op : PinOp) (atpic ioapic : Nat)
  | ioapicAssert (irq : Nat)
  /-- with the operation that it is part of -/
  | ioapicDeassert (op : PinOp) (irq : Nat)
  deriving DecidableEq, Repr

abbrev Ans : Op → Type
  | .begin => PinOp
  | .asserted | .processOp .. | .isaIrq .. | .ioapicAssert _
  | .ioapicDeassert .. => Bool
  | .atpicIrq _ => Option Nat
  | _ => Unit

abbrev Prog := Proc Op Ans

abbrev step (o : Op) : Prog (Ans o) := Proc.call o

/-- Tell the kernel. The IOAPIC has no call for a pulse. -/
def deliver (op : PinOp) : Wire → Prog Bool
  | .legacy irq => step (.isaIrq op irq irq)
  | .pci slot pin => do
    let irq := (Wire.pci slot pin).line.ioapic
    match ← step (.atpicIrq (pirqIdx slot pin)) with
    | some atpic => step (.isaIrq op atpic irq)
    | none =>
      match op with
      | .assert => step (.ioapicAssert irq)
      | .deassert => step (.ioapicDeassert op irq)
      | .pulse =>
        if ← step (.ioapicAssert irq) then
          step (.ioapicDeassert op irq)
        else pure false

/-- `do_irq`: whether the change of the caller's flag stands. -/
def doIrq (op : PinOp) (w : Wire) : Prog Bool := do
  step (.lock w.table)
  if ← step (.processOp w.line op) then
    let went ← deliver op w
    if went then pure () else step (.undoOp w.line op)
    step (.unlock w.table)
    pure went
  else
    step (.unlock w.table)
    pure true

def call (w : Wire) : PinOp → Prog Unit
  | .assert => do
    if ← step .asserted then pure ()
    else
      step (.setAsserted true)
      let went ← doIrq .assert w
      step (.setAsserted went)
  | .deassert => do
    if ← step .asserted then
      step (.setAsserted false)
      let went ← doIrq .deassert w
      step (.setAsserted !went)
    else pure ()
  | .pulse => do
    if ← step .asserted then pure ()
    else discard <| doIrq .pulse w

/-- The calls on a pin, one after the other. -/
def thread (w : Wire) : Prog Unit :=
  Proc.loop (fun _ : Unit => do
    let op ← step .begin
    call w op
    step .finish
    pure (.inl ())) ()

-- ==== the machine

structure Shared where
  busy : Nat → Bool
  asserted : Nat → Bool
  locks : Owners Table
  level : Line → Nat
  pir : Fin 4 → BitVec 8
  -- the kernel
  atpic : Nat → Nat
  ioapic : Nat → Nat

/-- What the outside world decides about a step. -/
structure Choice where
  op : PinOp
  refused : Bool

instance : Inhabited Choice := ⟨⟨.assert, false⟩⟩

/-- The guest writes the configuration space of the LPC bridge. -/
inductive Move where
  | cfgWrite (offset len : Nat) (val : BitVec 32)

namespace Shared

def withLocks (s : Shared) (o : Option (Owners Table)) : Option (Unit × Shared) :=
  o.map fun locks => ((), { s with locks := locks })

/-- The kernel takes a call, or refuses it. -/
def ioctl (s : Shared) (c : Choice) (done : Shared) : Bool × Shared :=
  if c.refused then (false, s) else (true, done)

def count (counts : Nat → Nat) (irq : Nat) : PinOp → Nat → Nat
  | .assert => update counts irq (counts irq + 1)
  | .deassert => update counts irq (counts irq - 1)
  | .pulse => counts

def exec (t : Nat) (c : Choice) : (o : Op) → Shared → Option (Ans o × Shared)
  | .begin, s =>
    some (c.op, { s with busy := update s.busy t true })
  | .finish, s => some ((), { s with busy := update s.busy t false })
  | .asserted, s => some (s.asserted t, s)
  | .setAsserted b, s =>
    some ((), { s with asserted := update s.asserted t b })
  | .lock m, s => s.withLocks (s.locks.acquire t m)
  | .unlock m, s => s.withLocks (s.locks.release t m)
  | .processOp l op, s =>
    let (tell, level) := Intr.processOp (s.level l) op
    some (tell, { s with level := update s.level l level })
  | .undoOp l op, s =>
    some ((), { s with
      level := update s.level l (Intr.undoOp (s.level l) op) })
  | .atpicIrq pirq, s => some (Intr.atpicIrq (s.pir pirq), s)
  | .isaIrq op atpic ioapic, s =>
    some (s.ioctl c { s with
      atpic := count s.atpic atpic op
      ioapic := count s.ioapic ioapic op })
  | .ioapicAssert irq, s =>
    some (s.ioctl c { s with ioapic := count s.ioapic irq .assert })
  | .ioapicDeassert _ irq, s =>
    some (s.ioctl c { s with ioapic := count s.ioapic irq .deassert })

end Shared

/-- The routing register that a write of configuration space reaches. -/
def pirReg (offset len : Nat) : Option (Fin 4) :=
  if h : 0x60 ≤ offset ∧ offset < 0x64 ∧ len = 1 then
    some ⟨offset - 0x60, by omega⟩
  else none

def Shared.cfgWrite (s : Shared) (offset len : Nat) (val : BitVec 32) : Shared :=
  match pirReg offset len with
  | none => s
  | some i => { s with pir := update s.pir i (val.setWidth 8) }

def machine : System Op Ans Shared Choice Move where
  exec := Shared.exec
  env
    | .cfgWrite offset len val, p =>
      some { p with sh := p.sh.cfgWrite offset len val }

/-- Every pin is low and every route is disabled. -/
def start (pins : Nat → Wire) : Pool Op Ans Shared where
  sh :=
    { busy := fun _ => false
      asserted := fun _ => false
      locks := fun _ => none
      level := fun _ => 0
      pir := fun _ => 0x80
      atpic := fun _ => 0
      ioapic := fun _ => 0 }
  thr t := thread (pins t)

-- ==== what is asked

/-- A line of the kernel's interrupt controllers. -/
inductive KernelLine where
  | atpic (irq : Nat)
  | ioapic (irq : Nat)

namespace Shared

def high (s : Shared) : KernelLine → Prop
  | .atpic irq => 0 < s.atpic irq
  | .ioapic irq => 0 < s.ioapic irq

/-- The ATPIC line of a line. -/
def route (s : Shared) : Line → Option Nat
  | .isa irq => some irq
  | .gsi n => Intr.atpicIrq (s.pir ⟨n % 4, Nat.mod_lt _ (by decide)⟩)

def routesTo (s : Shared) (w : Wire) : KernelLine → Prop
  | .atpic irq => s.route w.line = some irq
  | .ioapic irq => w.line.ioapic = irq

/-- No level of a routing register's lines is above zero, and the kernel has
them low. -/
def idle (s : Shared) (i : Fin 4) : Bool :=
  (List.finRange 8).all fun n =>
    n.val % 4 != i || (s.level (.gsi n) == 0 && s.ioapic (pciGsiBase + n) == 0)

end Shared

/-- A routing register gets another route only while its lines are idle, and
the kernel does not refuse to end a pulse. -/
def keepsRoutes : Act Choice Move → Pool Op Ans Shared → Bool
  | .run t c, p =>
    match (p.thr t).head? with
    | some (.ioapicDeassert .pulse _) => !c.refused
    | _ => true
  | .env (.cfgWrite offset len val), p =>
    (pirReg offset len).all fun i =>
      atpicIrq (val.setWidth 8) == atpicIrq (p.sh.pir i) || p.sh.idle i

end Rshyve.Intr
