/-
# Where a pin is in its call

`Loc` is where a pin is in a call, and `Loc.todo` the one operation it may
take there: every call keeps to it (`keeps_thread`). `Seated` says what the
flags and the mutexes say of the places.
-/
import Rshyve.Intr.Pins

namespace Rshyve.Intr

open Conc Discipline Function
open Keeps (seq)

-- ==== the places

/-- The state a call starts from, and the one it is for. -/
def PinOp.before : PinOp → Bool
  | .deassert => true
  | _ => false

def PinOp.after : PinOp → Bool
  | .assert => true
  | _ => false

/-- The level moves from before the operation to after it. The kernel is told
when that moves the line, or when a pulse finds it down. -/
theorem processOp_spec {n m : Nat} {op : PinOp} {tell : Bool}
    (hpos : op.before = true → 0 < n) (h : processOp n op = (tell, m)) :
    m + op.before.toNat = n + op.after.toNat ∧
      if tell then m = op.after.toNat ∧ decide (0 < n) = op.before
      else decide (0 < m) = decide (0 < n) := by
  cases op with
  | assert =>
    obtain ⟨rfl, rfl⟩ := Prod.mk.inj h
    refine ⟨rfl, ?_⟩
    cases n with
    | zero => exact ⟨rfl, rfl⟩
    | succ n => simp
  | deassert =>
    obtain ⟨k, rfl⟩ := Nat.exists_eq_succ_of_ne_zero (hpos rfl).ne'
    obtain ⟨rfl, rfl⟩ := Prod.mk.inj h
    refine ⟨rfl, ?_⟩
    cases k with
    | zero => exact ⟨rfl, rfl⟩
    | succ k => simp
  | pulse =>
    obtain ⟨rfl, rfl⟩ := Prod.mk.inj h
    refine ⟨rfl, ?_⟩
    cases n with
    | zero => exact ⟨rfl, rfl⟩
    | succ n => rfl

/-- A refused operation is taken back from the level. -/
theorem undoOp_after (op : PinOp) : undoOp op.after.toNat op = op.before.toNat := by
  cases op <;> rfl
inductive Stage where
  | rest
  | called
  /-- the flag is to be set -/
  | going
  | ready
  | locked
  /-- the level has changed, and the kernel is to be told -/
  | due
  | routed (r : Option Nat)
  /-- the first half of a pulse is done -/
  | lowering
  | refused
  | settled (went : Bool)
  | done (went : Bool)
  | ended
  deriving DecidableEq, Repr

/-- The level has changed and the kernel's line has not, or is in a pulse. -/
def Stage.mid : Stage → Bool
  | due | routed _ | lowering | refused => true
  | _ => false

/-- Where a pin is in its call. -/
structure Loc where
  wire : Wire
  op : PinOp
  flag : Bool
  stage : Stage

namespace Loc

/-- The flag that a call ends with. -/
def result (l : Loc) (went : Bool) : Bool :=
  if went then l.op.after else l.op.before

def todo (l : Loc) : Op :=
  match l.stage with
  | .rest => .begin
  | .called => .asserted
  | .going => .setAsserted l.op.after
  | .ready => .lock l.wire.table
  | .locked => .processOp l.wire.line l.op
  | .due =>
    match l.wire with
    | .legacy irq => .isaIrq l.op irq irq
    | .pci slot pin => .atpicIrq (pirqIdx slot pin)
  | .routed (some atpic) => .isaIrq l.op atpic l.wire.line.ioapic
  | .routed none =>
    if l.op = .deassert then .ioapicDeassert .deassert l.wire.line.ioapic
    else .ioapicAssert l.wire.line.ioapic
  | .lowering => .ioapicDeassert .pulse l.wire.line.ioapic
  | .refused => .undoOp l.wire.line l.op
  | .settled _ => .unlock l.wire.table
  | .done went => if l.op = .pulse then .finish else .setAsserted (l.result went)
  | .ended => .finish

/-- The kernel has answered. -/
def told (l : Loc) (went : Bool) : Loc :=
  { l with
      stage := if went then .settled true else .refused }

def next (l : Loc) : (o : Op) → Ans o → Loc
  | .begin, op => { l with op := op, stage := .called }
  | .finish, _ => { l with
      stage := .rest }
  | .asserted, b =>
    { l with
      stage :=
        if b = l.op.before then if l.op = .pulse then .ready else .going
        else .ended }
  | .setAsserted b, _ =>
    { l with
      flag := b
      stage := if l.stage = .going then .ready else .ended }
  | .lock _, _ => { l with stage := .locked }
  | .unlock _, _ =>
    { l with
      stage :=
        match l.stage with
        | .settled went => .done went
        | stage => stage }
  | .processOp .., tell =>
    { l with stage := if tell then .due else .settled true }
  | .undoOp .., _ => { l with stage := .settled false }
  | .atpicIrq _, r => { l with stage := .routed r }
  | .isaIrq .., went => l.told went
  | .ioapicAssert _, went =>
    if went ∧ l.op = .pulse then { l with stage := .lowering }
    else l.told went
  | .ioapicDeassert .., went => l.told went

def rules : Discipline Op Ans Loc where
  allow l o := o = l.todo
  can
    | l, .asserted, b => b = l.flag
    | _, _, _ => True
  next := next

end Loc

-- ==== the programs

section Programs

variable {l : Loc}

theorem keeps_deliver (hl : l.stage = .due) :
    Loc.rules.Keeps (deliver l.op l.wire) (fun l' went => l' = l.told went)
      l := by
  obtain ⟨w, op, flag, stage⟩ := l
  cases hl
  cases w with
  | legacy irq => exact ⟨rfl, fun went _ => rfl⟩
  | pci slot pin =>
    refine ⟨rfl, fun r _ => ?_⟩
    cases r with
    | some atpic => exact ⟨rfl, fun went _ => rfl⟩
    | none =>
      cases op with
      | assert =>
        refine ⟨rfl, fun went _ => ?_⟩
        cases went <;> rfl
      | deassert => exact ⟨rfl, fun went _ => rfl⟩
      | pulse =>
        refine ⟨rfl, fun went _ => ?_⟩
        cases went with
        | false => rfl
        | true => exact ⟨rfl, fun went _ => rfl⟩

theorem keeps_doIrq (hl : l.stage = .ready) : Loc.rules.Keeps (doIrq l.op l.wire)
      (fun l' went => l' = { l with stage := .done went }) l := by
  obtain ⟨w, op, flag, stage⟩ := l
  cases hl
  refine seq ⟨rfl, fun _ _ => seq ⟨rfl, fun tell _ => ?_⟩⟩
  cases tell with
  | false => exact ⟨rfl, fun _ _ => rfl⟩
  | true =>
    refine (keeps_deliver (l := ⟨w, op, flag, .due⟩) rfl).comp ?_
    rintro l' went rfl
    cases went with
    | true => exact ⟨rfl, fun _ _ => rfl⟩
    | false => exact ⟨rfl, fun _ _ => ⟨rfl, fun _ _ => rfl⟩⟩

/-- A call leaves the pin where only the mutex is to be given back. -/
theorem keeps_call (w : Wire) (op : PinOp) (flag : Bool) :
    Loc.rules.Keeps (call w op) (fun l _ => l.wire = w ∧ .finish = l.todo)
      ⟨w, op, flag, .called⟩ := by
  have hdo := keeps_doIrq (l := ⟨w, op, op.after, .ready⟩) rfl
  cases op with
  | assert =>
    refine seq ⟨rfl, fun b _ => ?_⟩
    cases b with
    | true => exact ⟨rfl, rfl⟩
    | false =>
      refine seq ⟨rfl, fun _ _ => seq (hdo.mono ?_)⟩
      rintro l went rfl
      cases went <;> exact ⟨rfl, fun _ _ => ⟨rfl, rfl⟩⟩
  | deassert =>
    refine seq ⟨rfl, fun b _ => ?_⟩
    cases b with
    | false => exact ⟨rfl, rfl⟩
    | true =>
      refine seq ⟨rfl, fun _ _ => seq (hdo.mono ?_)⟩
      rintro l went rfl
      cases went <;> exact ⟨rfl, fun _ _ => ⟨rfl, rfl⟩⟩
  | pulse =>
    refine seq ⟨rfl, fun b hb => ?_⟩
    cases b with
    | true => exact ⟨rfl, rfl⟩
    | false =>
      cases (show false = flag from hb)
      refine seq (hdo.mono ?_)
      rintro l went rfl
      exact ⟨rfl, rfl⟩

theorem keeps_thread (w : Wire) (op : PinOp) (flag : Bool) :
    Loc.rules.Keeps (thread w) (fun _ _ => False) ⟨w, op, flag, .rest⟩ := by
  refine keeps_loop (fun _ l => ∃ op flag, l = ⟨w, op, flag, .rest⟩) ⟨op, flag, rfl⟩ ?_
  rintro _ _ ⟨op, flag, rfl⟩
  refine seq ⟨rfl, fun op _ => seq ((keeps_call w op flag).mono ?_)⟩
  rintro ⟨w', op', flag', stage⟩ _ ⟨hw, htodo⟩
  cases hw
  exact ⟨htodo, fun _ _ => ⟨op', flag', rfl⟩⟩

end Programs

-- ==== the seats

namespace Loc

/-- The pin counts for its line. -/
def counts (l : Loc) : Bool :=
  match l.stage with
  | .rest | .called | .ended => l.flag
  | .going | .ready | .locked => l.op.before
  | .due | .routed _ | .lowering | .refused => l.op.after
  | .settled went | .done went => l.result went

/-- The pin holds the mutex of its table. -/
def inTable (l : Loc) : Bool :=
  match l.stage with
  | .locked | .due | .routed _ | .lowering | .refused | .settled _ => true
  | _ => false

def holds (l : Loc) (m : Table) : Prop := l.inTable = true ∧ l.wire.table = m

def busy (l : Loc) : Bool := l.stage != .rest

/-- What the flag says in the middle of a call. -/
def Fair (l : Loc) : Prop :=
  match l.stage with
  | .rest | .called | .ended => True
  | .going => l.flag = l.op.before
  | .lowering => l.flag = l.op.after ∧ l.op = .pulse
  | _ => l.flag = l.op.after

variable {l : Loc}

@[simp] theorem next_wire (o : Op) (a : Ans o) : (l.next o a).wire = l.wire := by
  cases o with
  | ioapicAssert irq =>
    simp only [next]
    split <;> rfl
  | _ => rfl

theorem inTable_of_mid (h : l.stage.mid = true) : l.inTable = true := by
  obtain ⟨w, op, flag, stage⟩ := l
  cases stage <;> first | rfl | cases h

/-- The answer of the flag is the flag. -/
theorem fair_next {a : Ans l.todo} (hl : l.Fair)
    (hcan : rules.can l l.todo a) : (l.next l.todo a).Fair := by
  obtain ⟨w, op, flag, stage⟩ := l
  cases stage with
  | called =>
    cases op <;> cases flag <;> cases a <;> first | rfl | trivial
  | due => cases w <;> cases a <;> exact hl
  | routed r =>
    cases r with
    | some atpic => cases a <;> exact hl
    | none => cases op <;> cases a <;> first | exact hl | exact ⟨hl, rfl⟩
  | locked => cases a <;> exact hl
  | lowering => cases a <;> exact hl.1
  | done went => cases op <;> trivial
  | going => cases op <;> rfl
  | rest | ended => trivial
  | ready | refused | settled went => exact hl

/-- Only the steps on the level change what counts. -/
theorem counts_next {a : Ans l.todo} (hl : l.Fair)
    (hcan : rules.can l l.todo a) (hlocked : l.stage ≠ .locked)
    (hrefused : l.stage ≠ .refused) :
    (l.next l.todo a).counts = l.counts := by
  obtain ⟨w, op, flag, stage⟩ := l
  cases stage with
  | locked => exact absurd rfl hlocked
  | refused => exact absurd rfl hrefused
  | called =>
    cases op <;> cases flag <;> cases a <;> first | rfl | cases hcan
  | due => cases w <;> cases a <;> rfl
  | routed r =>
    cases r with
    | some atpic => cases a <;> rfl
    | none => cases op <;> cases a <;> rfl
  | lowering => cases a <;> rfl
  | done went => cases op <;> cases went <;> first | rfl | exact hl
  | going => cases op <;> rfl
  | rest | ended | ready | settled went => rfl

/-- The pin works on the counts. -/
def counting (l : Loc) : Bool := l.stage == .locked || l.stage.mid

theorem next_counting (h : l.counting = true) (a : Ans l.todo) :
    (l.next l.todo a).flag = l.flag ∧ (l.next l.todo a).busy = l.busy ∧
      (l.next l.todo a).inTable = l.inTable := by
  obtain ⟨w, op, flag, stage⟩ := l
  cases stage with
  | locked | lowering => cases a <;> exact ⟨rfl, rfl, rfl⟩
  | due => cases w <;> cases a <;> exact ⟨rfl, rfl, rfl⟩
  | routed r =>
    cases r with
    | some atpic => cases a <;> exact ⟨rfl, rfl, rfl⟩
    | none => cases op <;> cases a <;> exact ⟨rfl, rfl, rfl⟩
  | refused => exact ⟨rfl, rfl, rfl⟩
  | _ => cases h

end Loc

/-- The steps on the levels, the routes and the kernel. -/
def Counting : Op → Prop
  | .processOp .. | .undoOp .. | .atpicIrq _ | .isaIrq .. | .ioapicAssert _
  | .ioapicDeassert .. => True
  | _ => False

theorem Loc.counting_todo {l : Loc} (h : l.counting = true) : Counting l.todo := by
  obtain ⟨w, op, flag, stage⟩ := l
  cases stage with
  | due => cases w <;> trivial
  | routed r =>
    cases r with
    | some atpic => trivial
    | none => cases op <;> trivial
  | locked | lowering | refused => trivial
  | _ => cases h

variable {s s' : Shared} {c : Choice}

/-- A call of the kernel is refused, or done. -/
theorem ioctl_cases {done : Shared} {a : Bool} (h : some (s.ioctl c done) = some (a, s')) :
    (c.refused = true ∧ a = false ∧ s' = s) ∨
    (c.refused = false ∧ a = true ∧ s' = done) := by
  unfold Shared.ioctl at h
  split at h
  next hc =>
    cases h
    exact .inl ⟨hc, rfl, rfl⟩
  next hc =>
    cases h
    exact .inr ⟨Bool.eq_false_of_not_eq_true hc, rfl, rfl⟩

theorem flags_exec {t : Nat} {o : Op} {a : Ans o}
    (ho : Counting o) (hex : Shared.exec t c o s = some (a, s')) :
    s'.asserted = s.asserted ∧ s'.busy = s.busy ∧ s'.locks = s.locks := by
  cases o with
  | processOp l op =>
    obtain ⟨-, rfl⟩ := Prod.mk.inj (Option.some.inj hex)
    exact ⟨rfl, rfl, rfl⟩
  | undoOp l op | atpicIrq pirq =>
    cases hex
    exact ⟨rfl, rfl, rfl⟩
  | isaIrq op atpic ioapic | ioapicAssert irq | ioapicDeassert op irq =>
    obtain ⟨-, -, rfl⟩ | ⟨-, -, rfl⟩ := ioctl_cases hex
    all_goals exact ⟨rfl, rfl, rfl⟩
  | _ => cases ho

/-- Where the pins are, and what the flags and mutexes say of it. -/
structure Seated (pins : Nat → Wire) (s : Shared) (gh : Nat → Loc) : Prop where
  wire : ∀ t, (gh t).wire = pins t
  fair : ∀ t, (gh t).Fair
  flag : ∀ t, s.asserted t = (gh t).flag
  busy : ∀ t, s.busy t = (gh t).busy
  tied : Tied s.locks Loc.holds gh

section Seats

variable {pins : Nat → Wire} {s s' : Shared} {gh : Nat → Loc} {t : Nat} {c : Choice} {l : Loc}

variable (h : Seated pins s gh)
include h

theorem Seated.move (hw : l.wire = (gh t).wire) (hfair : l.Fair)
    (hflag : s'.asserted = update s.asserted t l.flag)
    (hbusy : s'.busy = update s.busy t l.busy)
    (htied : Tied s'.locks Loc.holds (update gh t l)) :
    Seated pins s' (update gh t l) := by
  refine ⟨fun u => ?_, fun u => ?_, fun u => ?_, fun u => ?_, htied⟩
  all_goals
    by_cases hu : u = t
    · subst hu
      simp only [update_self, hw, h.wire, hfair, hflag, hbusy]
    · simp only [update_of_ne hu, h.wire, h.fair, h.flag, h.busy, hflag, hbusy]

theorem Seated.flag_same (hl : l.flag = (gh t).flag) : s.asserted = update s.asserted t l.flag := by
  rw [hl, ← h.flag, update_eq_self]

theorem Seated.busy_same (hl : l.busy = (gh t).busy) : s.busy = update s.busy t l.busy := by
  rw [hl, ← h.busy, update_eq_self]

theorem Seated.tied_same (hw : l.wire = (gh t).wire) (hin : l.inTable = (gh t).inTable) :
    Tied s.locks Loc.holds (update gh t l) :=
  h.tied.same fun m => by rw [Loc.holds, Loc.holds, hw, hin]

theorem can_exec {a : Ans l.todo} (hl : gh t = l) (hex : Shared.exec t c l.todo s = some (a, s')) :
    Loc.rules.can l l.todo a := by
  revert a
  generalize l.todo = o
  intro a hex
  cases o with
  | asserted =>
    cases hex
    rw [← hl]
    exact h.flag t
  | _ => trivial

/-- A step on the counts moves no flag and no mutex. -/
theorem Seated.stay (hl : gh t = l) {l' : Loc} (hfair : l'.Fair)
    (hw : l'.wire = l.wire) (hflag : l'.flag = l.flag)
    (hbusy : l'.busy = l.busy) (hin : l'.inTable = l.inTable)
    (hs : s'.asserted = s.asserted ∧ s'.busy = s.busy ∧ s'.locks = s.locks) :
    Seated pins s' (update gh t l') := by
  subst hl
  obtain ⟨ha, hb, hlocks⟩ := hs
  refine h.move hw hfair ?_ ?_ ?_
  · rw [ha]
    exact h.flag_same hflag
  · rw [hb]
    exact h.busy_same hbusy
  · rw [hlocks]
    exact h.tied_same hw hin

theorem seated_step {a : Ans l.todo} (hl : gh t = l)
    (hex : Shared.exec t c l.todo s = some (a, s')) :
    Seated pins s' (update gh t (l.next l.todo a)) := by
  have hfair := Loc.fair_next (hl ▸ h.fair t) (can_exec h hl hex)
  have hw : (l.next l.todo a).wire = (gh t).wire := by rw [Loc.next_wire, hl]
  obtain ⟨w, op, flag, stage⟩ := l
  cases stage with
  | rest =>
    cases hex
    exact h.move hw hfair (h.flag_same (by rw [hl]; rfl)) rfl (h.tied_same hw (by rw [hl]; rfl))
  | called =>
    cases hex
    cases op <;> cases hb : s.asserted t <;>
      exact h.stay hl (hb ▸ hfair) rfl rfl rfl rfl ⟨rfl, rfl, rfl⟩
  | going =>
    cases hex
    exact h.move hw hfair rfl (h.busy_same (by rw [hl]; rfl)) (h.tied_same hw (by rw [hl]; rfl))
  | ready =>
    obtain ⟨locks, hlock, heq⟩ := Option.map_eq_some_iff.mp hex
    cases heq
    obtain ⟨hfree, rfl⟩ := Owners.acquire_eq_some.mp hlock
    refine h.move hw hfair (h.flag_same (by rw [hl]; rfl))
      (h.busy_same (by rw [hl]; rfl)) (h.tied.acquire hfree fun m => ?_)
    rw [hl]
    exact ⟨fun hm => .inl hm.2.symm, fun hm => hm.elim (fun hm => ⟨rfl, hm.symm⟩)
      fun hm => nomatch hm.1⟩
  | settled went =>
    obtain ⟨locks, hlock, heq⟩ := Option.map_eq_some_iff.mp hex
    cases heq
    obtain ⟨hown, rfl⟩ := Owners.release_eq_some.mp hlock
    refine h.move hw hfair (h.flag_same (by rw [hl]; rfl))
      (h.busy_same (by rw [hl]; rfl)) (h.tied.release hown fun m => ?_)
    rw [hl]
    exact ⟨fun hm => (nomatch hm.1), fun hm => absurd hm.2.2.symm hm.1⟩
  | done went =>
    cases op with
    | pulse =>
      cases hex
      exact h.move hw hfair (h.flag_same (by rw [hl]; rfl)) rfl (h.tied_same hw (by rw [hl]; rfl))
    | assert | deassert =>
      cases hex
      exact h.move hw hfair rfl (h.busy_same (by rw [hl]; rfl)) (h.tied_same hw (by rw [hl]; rfl))
  | ended =>
    cases hex
    exact h.move hw hfair (h.flag_same (by rw [hl]; rfl)) rfl (h.tied_same hw (by rw [hl]; rfl))
  | locked | due | routed r | lowering | refused =>
    obtain ⟨hflag, hbusy, hin⟩ := Loc.next_counting (l := ⟨w, op, flag, _⟩) rfl a
    exact h.stay hl hfair (Loc.next_wire _ _) hflag hbusy hin
      (flags_exec (Loc.counting_todo rfl) hex)

end Seats

end Rshyve.Intr
