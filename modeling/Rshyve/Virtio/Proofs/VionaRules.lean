/-
# The rules viona's threads keep

One discipline for all the programs of `Viona.Device`. Inside a critical
section a thread knows the record it found and, ring by ring, how the
kernel's ring stands to the driver's (`View`). The record says how they stand
when nobody holds the lock (`Inner.view`); a section may break that for as
long as it lasts and has to make it true again before it unlocks. Outside,
a thread knows which rings are its to give back (`freed`), that the link is
gone (`dead`), how far its halt has come, and how far its migration has.

The flag `resumes` says whether a migration may be rolled back. Without a
rollback the saved states are never used, and a ring may be programmed
between a pause and the end. With one, a programmed ring must not have a
state saved: that is what the rollback does not look at.
-/
import Rshyve.Virtio.Viona.Machine

namespace Rshyve.Virtio.Viona

open Conc

-- ==== views

/-- How the kernel's ring stands to the driver's: neither has one; the kernel
has none; it runs the driver's; it has stopped it, in a known state; it has
it, running or stopped; it has it or none. -/
inductive View where
  | gone
  | bare (known : Option VringState)
  | live
  | stopped (known : Option VringState)
  | held
  | any

namespace View

def Agrees : View → Option KRing → Option VringState → Prop
  | .gone, k, ideal => k = none ∧ ideal = none
  | .bare o, k, ideal => k = none ∧ ∀ st, o = some st → ideal = some st
  | .live, k, ideal => ∃ st, k = some ⟨st, false⟩ ∧ ideal = some st
  | .stopped o, k, ideal =>
    ∃ st, k = some ⟨st, true⟩ ∧ ideal = some st ∧ ∀ s, o = some s → s = st
  | .held, k, ideal => ∃ kr, k = some kr ∧ ideal = some kr.state
  | .any, k, ideal => ∀ kr, k = some kr → ideal = some kr.state

/-- The first view says at least as much as the second. -/
def Le (v w : View) : Prop := ∀ k ideal, v.Agrees k ideal → w.Agrees k ideal

theorem Le.refl (v : View) : v.Le v := fun _ _ h => h

theorem Le.of_eq {v w : View} (h : v = w) : v.Le w := h ▸ .refl v

/-- The kernel never has another ring than the driver. -/
theorem le_any (v : View) : v.Le .any := by
  intro k ideal h kr hk
  subst hk
  cases v with
  | gone => cases h.1
  | bare o => cases h.1
  | live =>
    obtain ⟨st, hst, hid⟩ := h
    obtain rfl := Option.some.inj hst
    exact hid
  | stopped o =>
    obtain ⟨st, hst, hid, -⟩ := h
    obtain rfl := Option.some.inj hst
    exact hid
  | held =>
    obtain ⟨kr', hkr, hid⟩ := h
    obtain rfl := Option.some.inj hkr
    exact hid
  | any => exact h kr rfl

theorem live_le_held : View.Le .live .held :=
  fun _ _ ⟨st, hk, hid⟩ => ⟨⟨st, false⟩, hk, hid⟩

theorem stopped_le_held (o : Option VringState) : (stopped o).Le .held :=
  fun _ _ ⟨st, hk, hid, _⟩ => ⟨⟨st, true⟩, hk, hid⟩

/-- The kernel has the ring, as far as the view can tell. -/
def kickable : View → Prop
  | .live | .stopped _ | .held | .any => True
  | .gone | .bare _ => False

/-- The kernel has no ring. -/
def empty : View → Prop
  | .gone | .bare _ => True
  | _ => False

def isGone : View → Bool
  | .gone => true
  | _ => false

def reset : View → View
  | .gone => .gone
  | .bare o | .stopped o => .bare o
  | .live | .held | .any => .bare none

def pause : View → View
  | .live | .held => .stopped none
  | v => v

def learn (st : VringState) : View → View
  | .stopped _ => .stopped (some st)
  | v => v

theorem empty_reset (v : View) : v.reset.empty := by
  cases v <;> trivial

end View

/-- How the rings stand while nobody holds the lock. -/
def Inner.view (resumes : Bool) (i : Inner) (r : Ring) : View :=
  if i.halted then .any
  else match i.ringState r with
    | .init | .error => .gone
    | .ready =>
      if i.failed r then .any
      else match i.pausedRings r with
        | .running => .live
        | .saved st => if resumes then .stopped (some st) else .held
        | .lost => .held

-- ==== local states

/-- A critical section: the record it found, and the rings. -/
structure Sec where
  base : Inner
  view : Ring → View

/-- A halt: not begun, the device marked, the poll thread gone. -/
inductive Halting where
  | no
  | marked
  | clear
  deriving DecidableEq

/-- A migration: none, paused or about to be, given up, rolled back. -/
inductive Stage where
  | guest
  | fresh
  | resuming
  | after
  deriving DecidableEq

structure Loc where
  sec : Option Sec
  freed : Ring → Bool
  dead : Bool
  halting : Halting
  polling : Bool
  stage : Stage

def Loc.rest (stage : Stage) : Loc :=
  ⟨none, fun _ => false, false, .no, false, stage⟩

def Loc.poller : Loc := { Loc.rest .guest with polling := true }

namespace Loc

/-- In a section of a device that is not halted. -/
def inside (l : Loc) (s : Sec) : Prop :=
  l.sec = some s ∧ s.base.halted = false

def setView (l : Loc) (r : Ring) (f : View → View) : Loc :=
  { l with sec := l.sec.map fun s =>
      { s with view := Function.update s.view r (f (s.view r)) } }

def free (l : Loc) (r : Ring) : Loc :=
  { l with freed := Function.update l.freed r true }

/-- Neither in a section nor in a halt, and not the poll thread. -/
def idle (l : Loc) : Prop :=
  l.sec = none ∧ l.halting = .no ∧ l.polling = false

end Loc

-- ==== the discipline

/-- What a section may put back in place of the record it found. -/
structure Writes (l : Loc) (base i : Inner) : Prop where
  marks : i.halted = base.halted ∧ i.poller = base.poller ∨ base.halted = false ∧ i.halted = true
  init : i.halted = true → ∀ r, i.ringState r = .init
  paused : l.stage = .guest ∨ l.stage = .after → i.pausedRings = base.pausedRings
  failed : l.stage ≠ .resuming → i.failed = base.failed
  resumed : l.stage = .resuming → i.halted = true ∨ ∀ r, i.pausedRings r = .running
  index : ∀ r st, i.pausedRings r = .saved st → st.index = r

/-- The steps a thread may take. -/
def mayIssue (resumes : Bool) (l : Loc) : Op → Prop
  | .begins _ | .lock => l.idle
  | .returns c => l.idle ∧ (l.dead = true ∨ ∀ r, c.retires r = true → l.freed r = true)
  | .failing => l.idle ∧ resumes = true ∧ l.stage = .fresh
  | .abort => l.idle
  | .unlock i => ∃ s, l.sec = some s ∧ Writes l s.base i ∧ ∀ r, (s.view r).Le (i.view resumes r)
  | .retire r => ∃ s, l.inside s ∧ (s.view r).empty
  | .ringInit r .. => ∃ s, l.inside s ∧ s.view r = .gone
  | .ringKick r => ∃ s, l.inside s ∧ (s.view r).kickable ∧ (s.view r = .any → resumes = true)
  | .ringReset _ =>
    (∃ s, l.inside s) ∨ l.halting = .clear ∧ l.sec = none
  | .ringPause _ | .ringGetState _ | .setFeatures _ => ∃ s, l.inside s
  | .ringSetState st => ∃ s, l.inside s ∧ resumes = true ∧ s.view st.index = .bare (some st)
  | .delete => l.halting = .clear ∧ l.sec = none
  | .closeWake | .join => l.halting = .marked
  | .intrStatus | .ringIntrClr _ | .waitIntr | .slot | .raise _
  | .pollExit => l.polling = true

/-- The answers a thread has to be ready for. -/
def canAnswer (resumes : Bool) (l : Loc) : (o : Op) → Ans o → Prop
  | .lock, i =>
    (i.halted = true → ∀ r, i.ringState r = .init) ∧
    (l.stage = .fresh ∨ l.stage = .resuming → ∀ r, i.failed r = false) ∧
    (resumes = false → ∀ r, i.failed r = false) ∧
    ∀ r st, i.pausedRings r = .saved st → st.index = r
  | .ringGetState r, .ok st => st.index = r
  | .ringInit r .., .ok () => ∀ s, l.inside s → resumes = true →
      ∀ st, s.base.pausedRings r ≠ .saved st
  | _, _ => True

/-- What a thread knows once the answer is in. -/
def learns (resumes : Bool) (l : Loc) : (o : Op) → Ans o → Loc
  | .begins _, _ => { l with freed := fun _ => false, dead := false }
  | .failing, _ => { l with stage := .resuming }
  | .abort, _ => { l with dead := true }
  | .lock, i =>
    { l with
      sec := some ⟨i, i.view resumes⟩
      dead := l.dead || i.halted
      freed := fun r => l.freed r || (i.view resumes r).isGone }
  | .unlock i, _ =>
    { l with
      sec := none
      halting := match l.sec with
        | some s =>
          if i.halted && !s.base.halted then
            if s.base.poller then .marked else .clear
          else l.halting
        | none => l.halting
      stage := if l.stage = .resuming then .after else l.stage }
  | .retire r, _ => l.setView r fun _ => .gone
  | .ringInit r .., .ok () => l.setView r fun _ => .live
  | .ringReset r, .ok () => (l.setView r View.reset).free r
  | .ringPause r, .ok () => l.setView r View.pause
  | .ringGetState r, .ok st => l.setView r (View.learn st)
  | .ringSetState st, .ok () => l.setView st.index fun _ => .live
  | .delete, .ok () => { l with dead := true, halting := .no }
  | .delete, .error _ => { l with halting := .no }
  | .join, _ => { l with halting := .clear }
  | .pollExit, _ => { l with polling := false }
  | _, _ => l

theorem learns_lock (resumes : Bool) (l : Loc) (i : Inner) : learns resumes l .lock i =
    { l with
      sec := some ⟨i, i.view resumes⟩
      dead := l.dead || i.halted
      freed := fun r => l.freed r || (i.view resumes r).isGone } := rfl

def rules (resumes : Bool) : Discipline Op Ans Loc where
  allow := mayIssue resumes
  can := canAnswer resumes
  next := learns resumes

end Rshyve.Virtio.Viona
