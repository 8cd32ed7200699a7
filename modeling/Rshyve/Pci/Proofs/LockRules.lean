/-
# The order the accesses lock in

Every lock has a rank, and outside moving writes a vCPU locks only above
what it holds. A moving write breaks the order once: it locks `self_ref`
(rank 1) with the PCI state (rank 2) in hand.

`Loc` is what a vCPU holds: a stack of locks, plus what its moving write
holds (`Phase`). `rules` is the discipline over it. Every access is steady
code: each step has an equation, and so has each part that comes back to
where it started, like the backend's callback (`steady_callback`). Running an
access from the stack it is entered with is then left to `simp`.
`keeps_vcpu` puts the accesses together.
-/
import Rshyve.Pci.Locks

namespace Rshyve.Pci.Locks

open Conc Discipline

-- ==== what is held

/-- The order of the locks. -/
def Lock.rank : Lock → Nat
  | .state => 0
  | .selfRef => 1
  | .pci => 2
  | .record _ | .inner => 3
  | _ => 4

theorem Lock.rank_le (l : Lock) : l.rank ≤ 4 := by
  unfold Lock.rank
  split <;> omega

/-- Where a vCPU is in a moving write; `plain` is outside of one. -/
inductive Phase where
  | plain
  | moving
  | both
  | retake
  | refresh
  | finish
  deriving DecidableEq

def Phase.holds : Phase → Lock → Bool
  | .plain, _ => false
  | .moving, l => l == .pci
  | .both, l | .refresh, l => l == .pci || l == .selfRef
  | .retake, l | .finish, l => l == .selfRef

/-- The local state of a vCPU. -/
structure Loc where
  phase : Phase
  stack : List Lock
  token : Bool
  inside : Bool

namespace Loc

def outside : Loc := ⟨.plain, [], false, false⟩

/-- Inside an access, with nothing in hand. -/
def rest : Loc := ⟨.plain, [], false, true⟩

/-- Inside a moving write, with what its phase holds. -/
def mid (p : Phase) : Loc := ⟨p, [], false, true⟩

def push (x : Loc) (l : Lock) : Loc := { x with stack := l :: x.stack }

def holds (x : Loc) (l : Lock) : Prop :=
  l ∈ x.stack ∨ x.phase.holds l = true

/-- Where ordinary code runs. -/
def Calm (x : Loc) : Prop :=
  x.inside = true ∧ (x.phase = .plain ∨ x.phase = .refresh)

/-- Ordinary code that may lock what ranks `n` or higher. -/
structure Under (n : Nat) (x : Loc) : Prop where
  calm : x.Calm
  lt : ∀ l, x.holds l → l.rank < n

/-- The same, and not in a delivery. -/
structure Bare (n : Nat) (x : Loc) : Prop extends Under n x where
  token : x.token = false

def MayLock (x : Loc) (l : Lock) : Prop :=
  x.Calm ∧ l ≠ .selfRef ∧ ∀ m, x.holds m → m.rank < l.rank

/-- In a delivery that is counted, or not. -/
def counted (x : Loc) (go : Bool) : Loc := { x with token := go }

/-- Without the lock on top. -/
def pop (x : Loc) : Loc := { x with stack := x.stack.tail }

/-- Nothing is held twice, `self_ref` only by a moving write, and nothing
outside. -/
structure Ok (x : Loc) : Prop where
  out : x.inside = false → x = outside
  nodup : x.stack.Nodup
  apart : ∀ l ∈ x.stack, x.phase.holds l = false ∧ l ≠ .selfRef

end Loc

-- ==== the discipline

/-- What a vCPU may do with what it holds. -/
def rules : Discipline Op Ans Loc where
  allow x
    | .enter => x = .outside
    | .leave | .take | .settle => x = .rest
    | .lock l =>
      x.Calm ∧ l ≠ .selfRef ∧ ∀ m, x.holds m → m.rank < l.rank
    | .unlock l => x.Calm ∧ x.stack.head? = some l
    | .takeSelf => x = .mid .moving
    | .drop => x = .mid .both
    | .retake => x = .mid .retake
    | .release => x = .mid .refresh
    | .releaseSelf => x = .mid .finish
    | .pick | .work => x.Calm
    | .count => x.Calm ∧ x.token = false
    | .uncount => x.Calm ∧ x.token = true
  can _ _ _ := True
  next x
    | .enter, _ => .rest
    | .leave, _ => .outside
    | .lock l, _ => x.push l
    | .unlock _, _ => { x with stack := x.stack.tail }
    | .take, _ => .mid .moving
    | .takeSelf, _ => .mid .both
    | .drop, _ => .mid .retake
    | .retake, _ => .mid .refresh
    | .release, _ => .mid .finish
    | .releaseSelf, _ => .rest
    | .pick, _ | .work, _ => x
    | .count, go => { x with token := go }
    | .uncount, _ => { x with token := false }
    | .settle, _ => x.push .admission

-- ==== places

namespace Loc

variable {x : Loc} {l : Lock} {n : Nat}

@[simp] theorem pop_push : (x.push l).pop = x := rfl

@[simp] theorem head_push : (x.push l).stack.head? = some l := rfl

@[simp] theorem calm_push : (x.push l).Calm ↔ x.Calm := Iff.rfl

@[simp] theorem calm_counted {go : Bool} :
    (x.counted go).Calm ↔ x.Calm := Iff.rfl

@[simp] theorem counted_push {go : Bool} :
    (x.push l).counted go = (x.counted go).push l := rfl

@[simp] theorem token_counted {go : Bool} : (x.counted go).token = go := rfl

@[simp] theorem calm_rest : rest.Calm := ⟨rfl, .inl rfl⟩

@[simp] theorem calm_refresh : (mid .refresh).Calm := ⟨rfl, .inr rfl⟩

theorem holds_push {m : Lock} : (x.push l).holds m ↔ m = l ∨ x.holds m := by
  simp [holds, push, or_assoc]

@[simp] theorem not_holds_rest : ¬ rest.holds l := by
  simp [holds, rest, Phase.holds]

@[simp] theorem mayLock_rest : rest.MayLock l ↔ l ≠ .selfRef := by
  simp [MayLock]

/-- With the device's register state locked, everything else may be. -/
@[simp] theorem mayLock_state :
    (rest.push .state).MayLock l ↔ l ≠ .selfRef ∧ 0 < l.rank := by
  simp [MayLock, holds_push, Lock.rank]

@[simp] theorem bare_rest : rest.Bare n := ⟨⟨calm_rest, by simp⟩, rfl⟩

@[simp] theorem bare_state (hn : 0 < n) : (rest.push .state).Bare n :=
  ⟨⟨calm_rest, by simp [holds_push, Lock.rank, hn]⟩, rfl⟩

@[simp] theorem token_push : (x.push l).token = x.token := rfl

theorem Under.push (h : x.Under n) (hn : n ≤ l.rank) :
    (x.push l).Under (l.rank + 1) := by
  refine ⟨h.calm, fun m hm => ?_⟩
  rcases holds_push.mp hm with rfl | hm
  · exact Nat.lt_succ_self _
  · exact Nat.lt_succ_of_lt ((h.lt m hm).trans_le hn)

theorem Under.mayLock (h : x.Under n) (hn : n ≤ l.rank) (hl : l ≠ .selfRef) :
    x.MayLock l := ⟨h.calm, hl, fun m hm => (h.lt m hm).trans_le hn⟩

end Loc

-- ==== single steps

section Steps

-- `simp` would index the equations by the type of the answer, which it does
-- not compute; hence `no_index`

variable {x : Loc} {l : Lock} {p : Prog Unit} {Q : Loc → Unit → Prop}

@[simp] theorem steady_lock {Q : Loc → Ans (.lock l) → Prop} :
    rules.Steady (R := no_index (Ans (.lock l))) (step (.lock l)) Q x ↔
      x.MayLock l ∧ Q (x.push l) () :=
  steady_call.trans (and_congr_right' ⟨fun h => h () trivial, fun h _ _ => h⟩)

@[simp] theorem steady_unlock {Q : Loc → Ans (.unlock l) → Prop} :
    rules.Steady (R := no_index (Ans (.unlock l))) (step (.unlock l)) Q x ↔
      (x.Calm ∧ x.stack.head? = some l) ∧ Q x.pop () :=
  steady_call.trans (and_congr_right' ⟨fun h => h () trivial, fun h _ _ => h⟩)

@[simp] theorem steady_work {Q : Loc → Ans .work → Prop} :
    rules.Steady (R := no_index (Ans .work)) (step .work) Q x ↔
      x.Calm ∧ Q x () :=
  steady_call.trans (and_congr_right' ⟨fun h => h () trivial, fun h _ _ => h⟩)

@[simp] theorem steady_pick {Q : Loc → Ans .pick → Prop} :
    rules.Steady (R := no_index (Ans .pick)) (step .pick) Q x ↔
      x.Calm ∧ ∀ b, Q x b :=
  steady_call.trans (and_congr_right' ⟨fun h b => h b trivial, fun h b _ => h b⟩)

@[simp] theorem steady_count {Q : Loc → Ans .count → Prop} :
    rules.Steady (R := no_index (Ans .count)) (step .count) Q x ↔
      (x.Calm ∧ x.token = false) ∧ ∀ go, Q (x.counted go) go :=
  steady_call.trans (and_congr_right' ⟨fun h b => h b trivial, fun h b _ => h b⟩)

@[simp] theorem steady_uncount {Q : Loc → Ans .uncount → Prop} :
    rules.Steady (R := no_index (Ans .uncount)) (step .uncount) Q x ↔
      (x.Calm ∧ x.token = true) ∧ Q (x.counted false) () :=
  steady_call.trans (and_congr_right' ⟨fun h => h () trivial, fun h _ _ => h⟩)

/-- The end of the wait for the deliveries: it is done with nothing in hand. -/
theorem steady_settle {Q : Loc → Ans .settle → Prop} :
    rules.Steady (R := no_index (Ans .settle)) (step .settle) Q x ↔
      x = .rest ∧ Q (x.push .admission) () :=
  steady_call.trans (and_congr_right' ⟨fun h => h () trivial, fun h _ _ => h⟩)

@[simp] theorem steady_brief :
    rules.Steady (brief l) Q x ↔ x.MayLock l ∧ Q x () := by
  simp only [brief, steady_bind, steady_lock, steady_unlock, Loc.calm_push,
    Loc.head_push, Loc.pop_push, and_true]
  exact ⟨fun h => ⟨h.1, h.2.2⟩, fun h => ⟨h.1, h.1.1, h.2⟩⟩

@[simp] theorem steady_optional :
    rules.Steady (optional p) Q x ↔
      x.Calm ∧ rules.Steady p Q x ∧ Q x () := by
  simp [optional, and_comm]

@[simp] theorem steady_rounds :
    rules.Steady (rounds p) Q x ↔
      x.Calm ∧ rules.Steady p (fun y _ => y = x) x ∧ Q x () := by
  simp [rounds, and_comm]

-- ==== parts that come back

/-- An interrupt takes locks that nothing is locked under. -/
theorem steady_deliverInterrupt (hx : x.Under 4) :
    rules.Steady deliverInterrupt Q x ↔ Q x () := by
  have hmsix : x.MayLock .msix := hx.mayLock (Nat.le_refl 4) nofun
  have hline : x.MayLock .line := hx.mayLock (Nat.le_refl 4) nofun
  simp [deliverInterrupt, routeMsix, holding, hx.calm, hmsix, hline]

/-- A delivery is counted while it lasts. -/
theorem steady_admitted (hx : x.Bare 4)
    (hp : ∀ {y : Loc} {Q : Loc → Unit → Prop}, y.Under 4 →
      (rules.Steady p Q y ↔ Q y ())) :
    rules.Steady (admitted p) Q x ↔ Q x () := by
  have hadm {go : Bool} : (x.counted go).MayLock .admission :=
    hx.mayLock (Nat.le_refl 4) nofun
  have hin : (x.counted true).Under 4 := ⟨hx.calm, hx.lt⟩
  have hout : x.counted false = x := by rw [Loc.counted, ← hx.token]
  have hmay : x.MayLock .admission := hx.mayLock (Nat.le_refl 4) nofun
  have hend : (x.counted true).counted false = x := hout
  simp [admitted, hx.calm, hadm, hmay, hp hin, hout, hx.token, hend]

@[simp] theorem steady_raise (hx : x.Bare 4) :
    rules.Steady (admitted deliverInterrupt) Q x ↔ Q x () :=
  steady_admitted hx steady_deliverInterrupt

theorem steady_deliverReleased :
    rules.Steady deliverReleased Q .rest ↔ Q .rest () := by
  have hwork : rules.Steady (admitted (rounds (step .work))) Q .rest ↔
      Q .rest () :=
    steady_admitted Loc.bare_rest fun hy => by simp [hy.calm]
  simp [deliverReleased, hwork]

/-- The backend takes its own lock, and raises under it or outside. -/
@[simp] theorem steady_callback (hx : x.Bare 3) :
    rules.Steady callback Q x ↔ Q x () := by
  have hup : x.Bare 4 :=
    ⟨⟨hx.calm, fun l hl => (hx.lt l hl).trans (by decide)⟩, hx.token⟩
  have hinner : (x.push .inner).Bare 4 :=
    ⟨hx.push (l := .inner) (Nat.le_refl 3), hx.token⟩
  have hmay : x.MayLock .inner := hx.mayLock (Nat.le_refl 3) nofun
  simp [callback, holding, hx.calm, hmay, hup, hinner]

end Steps

-- ==== the accesses

/-- From nothing in hand back to nothing in hand. -/
abbrev Settles (p : Prog Unit) : Prop :=
  rules.Steady p (fun y _ => y = .rest) .rest

section Moves

variable {Q : Loc → Unit → Prop}

/-- The locks under which a BAR is released and registered. -/
theorem steady_refreshBar {bus : Lock} (hbus : bus = .pio ∨ bus = .mmio)
    (bar : BarN) :
    rules.Steady (refreshBar bus bar) Q (.mid .refresh) ↔
      Q (.mid .refresh) () := by
  have hfree : 4 ≤ bus.rank ∧ bus ≠ .selfRef := by
    rcases hbus with rfl | rfl <;> decide
  have hin : (Loc.mid .refresh).Under 3 := by
    refine ⟨Loc.calm_refresh, ?_⟩
    simp [Loc.holds, Loc.mid, Phase.holds, Lock.rank]
  have hrec : (Loc.mid .refresh).MayLock (.record bar) :=
    hin.mayLock (Nat.le_refl 3) nofun
  have hpush : ((Loc.mid .refresh).push (.record bar)).MayLock bus :=
    (hin.push (l := .record bar) (Nat.le_refl 3)).mayLock hfree.1 hfree.2
  simp [refreshBar, holding, hrec, hpush]

/-- A moving write, whatever it updates under the PCI state. -/
theorem settles_movingWrite {update : Prog Unit}
    (h : rules.Steady update (fun y _ => y = .mid .refresh) (.mid .refresh)) :
    Settles (movingWrite update) := by
  refine ⟨rfl, fun _ _ => ⟨rfl, fun _ _ => ⟨rfl, fun _ _ =>
    ⟨rfl, fun _ _ => ?_⟩⟩⟩⟩
  show rules.Steady (update >>= _) _ (.mid .refresh)
  refine steady_bind.mpr (h.mono ?_)
  rintro _ _ rfl
  exact ⟨rfl, fun _ _ => ⟨rfl, fun _ _ => rfl⟩⟩

end Moves

namespace Virtio

theorem settles_cfgRead (offset : BitVec 8) : Settles (cfgRead offset) := by
  simp [cfgRead]

theorem settles_cfgWrite (offset : BitVec 8) : Settles (cfgWrite offset) := by
  have hmove : Settles (movingWrite updateRegistration) := by
    refine settles_movingWrite ?_
    simp [updateRegistration, steady_refreshBar]
  simp [cfgWrite, capChainWrite, steady_deliverReleased, hmove]

theorem settles_barRead (bar : BarN) : Settles (barRead bar) := by
  simp [barRead, modernRead, legacyRead, readIsr, holding, Lock.rank]

theorem settles_barWrite (bar : BarN) : Settles (barWrite bar) := by
  simp [barWrite, modernWrite, legacyWrite, lockForWrite, writeRing,
    notifyQueue, writeStatus, resetDevice, setNeedsReset,
    steady_deliverReleased, steady_settle, holding, Lock.rank]

end Virtio

namespace Nvme

theorem settles_cfgRead (offset : BitVec 8) : Settles (cfgRead offset) := by
  simp [cfgRead]

theorem settles_cfgWrite (offset : BitVec 8) : Settles (cfgWrite offset) := by
  have hmove : Settles (movingWrite updateRegistration) := by
    refine settles_movingWrite ?_
    simp [updateRegistration, steady_refreshBar]
  simp [cfgWrite, hmove]

theorem settles_barRead (bar : BarN) : Settles (barRead bar) := by
  simp [barRead]

theorem settles_barWrite (bar : BarN) : Settles (barWrite bar) := by
  simp [barWrite, writeCc, adminSqDoorbell, ioSqDoorbell, adminCommand,
    postCompletion, fenceWorkers, shutdown, disable, enable, endDrain,
    holding, Lock.rank]

end Nvme

namespace Xhci

theorem settles_cfgWrite (offset : BitVec 8) : Settles (cfgWrite offset) := by
  have hmove : Settles (movingWrite updateRegistration) := by
    refine settles_movingWrite ?_
    simp [updateRegistration, steady_refreshBar]
  simp [cfgWrite, hmove]

theorem settles_barRw (bar : BarN) : Settles (barRw bar) := by
  simp [barRw, holding, Lock.rank]

end Xhci

-- ==== the vCPUs

/-- Every access comes back with nothing in hand. -/
theorem settles_serve (k : Kind) (a : Access) : Settles (serve k a) := by
  cases a <;> cases k <;>
    simp [serve, dispatchCfg, dispatchBar, Virtio.settles_cfgRead,
      Virtio.settles_cfgWrite, Virtio.settles_barRead,
      Virtio.settles_barWrite, Nvme.settles_cfgRead, Nvme.settles_cfgWrite,
      Nvme.settles_barRead, Nvme.settles_barWrite, Xhci.cfgRead,
      Xhci.settles_cfgWrite, Xhci.settles_barRw]

/-- A vCPU keeps the rules, and never returns. -/
theorem keeps_vcpu (k : Kind) : rules.Keeps (vcpu k) (fun _ _ => False) .outside := by
  refine keeps_loop (fun _ y => y = .outside) rfl ?_
  rintro _ _ rfl
  refine Keeps.seq ⟨rfl, fun a _ => ?_⟩
  refine (settles_serve k a).keeps.comp ?_
  rintro _ _ rfl
  exact Keeps.seq ⟨rfl, fun _ _ => rfl⟩

end Rshyve.Pci.Locks
