/-
# The destination's memory follows the source's

The invariant behind the RAM passes. At every moment there is a memory the
destination *will* have, once it has taken everything the source has sent
and if it accepts all of it: the memory it has now, carried over the frames
on the wire. The invariant compares that memory with the source's, address
by address: they agree, or the page is dirty, or the page is still to be
sent in this pass.

# How the pieces move

- The guest writes a page: the page is dirty from then on.
- The kernel reports and clears dirty bits: the reported pages are still to
  be sent in this pass.
- The source reads a page: the bytes are the page's, or the guest raced the
  read and the page is dirty.
- The source sends a batch: the pages it holds are no longer to be sent, and
  the memory at the far end of the wire has them (`applied_batch`).
- The destination takes a frame: the far end stays where it is.
- The connection is cut: the frames that are lost stay part of the view,
  since the source has accounted for them. What is lost is the answer to
  them.

A `MemDone` is worth something because at most one end-of-pass is ever
unanswered. In the last pass it therefore says that the destination has
taken everything, so the memory at the far end is the memory it has.
-/
import Rshyve.Migrate.Session
import Rshyve.Migrate.Proofs.Pages

namespace Rshyve.Migrate.Session

open Conc Discipline
open Mem (pageSize GuestMem RegionKind DirtyChunk)

variable {out : Outside} {R : List (Nat × Nat × RegionKind)}

-- ==== the receiver

/-- Where the destination's receiving stands: before the pause signal,
before the last end of pass, or past it. -/
inductive Leg where
  | before
  | last
  | past
  deriving DecidableEq

/-- The leg after an end of pass. -/
def Leg.ended : Leg → Leg
  | .before => .before
  | _ => .past

/-- A receiving destination: the list of the last `MemFetch`, and its
memory unless it has refused a message. -/
structure Receiver where
  leg : Leg
  sparse : Option (List Nat)
  mem : Option GuestMem

/-- Keep the memory unless a page list is open. -/
def Receiver.unlessOpen (r : Receiver) : Option GuestMem :=
  if r.sparse = none then r.mem else none

/-- A frame as its receiver decodes it. -/
abbrev Decoded := Except MigrateError Message

/-- What one message does to a receiver. -/
def Receiver.take (out : Outside) (r : Receiver) (x : Decoded) : Receiver :=
  if r.leg = .past then r
  else match x with
    | .ok (.pageBatch base count flags data) =>
      { r with
        sparse := none
        mem := r.mem.bind fun m =>
          (applyPageBatch out m base count flags data r.sparse).toOption }
    | .ok (.memFetch gpas) =>
      { r with sparse := some (gpas.map BitVec.toNat), mem := r.unlessOpen }
    | .ok .memEnd => ⟨r.leg.ended, none, r.unlessOpen⟩
    | .ok .pauseSignal =>
      ⟨.last, none, if r.leg = .before then r.unlessOpen else none⟩
    | _ => { r with mem := none }

/-- What one frame does to a receiver. -/
def absorb (out : Outside) (r : Receiver) (f : List UInt8) : Receiver :=
  r.take out (decode out f)

-- ==== local states

/-- What is known of the destination's thread: it negotiates, it waits for
a frame, it is about to write a batch, it is about to answer an end of
pass, or it has refused a message. -/
inductive Dst where
  | sync
  | pass (leg : Leg) (sparse : Option (List Nat))
  | apply (leg : Leg) (base count flags : Nat) (data : List UInt8) (sparse : Option (List Nat))
  | ack (leg : Leg)
  | dead (leg : Leg) (sparse : Option (List Nat))

/-- The receiver a thread stands for, with memory `m`. -/
def Dst.standing (out : Outside) (m : GuestMem) : Dst → Receiver
  | .sync => ⟨.before, none, none⟩
  | .pass leg sparse => ⟨leg, sparse, some m⟩
  | .apply leg base count flags data sparse =>
    ⟨leg, none, (applyPageBatch out m base count flags data sparse).toOption⟩
  | .ack leg => ⟨leg, none, some m⟩
  | .dead leg sparse => ⟨leg, sparse, none⟩

/-- The number of answers the destination owes for itself. -/
def Dst.acks : Dst → Nat
  | .ack _ => 1
  | _ => 0

/-- The stages of the source: negotiation, sending a pass, waiting for the
answer to one, past the last answer, past an error. -/
inductive Stage where
  | sync
  | live
  | wait
  | sealed
  | failed
  deriving DecidableEq

/-- What is known of the source's thread. `pend` are the pages still to be
sent in this pass, `clean` the pages whose dirty bit was read since the
pause, `got` the pages read for the next batch, `fetch` the page list sent
ahead of it. -/
structure Src where
  stage : Stage
  leg : Leg
  paused : Bool
  pend : Nat → Prop
  clean : Nat → Prop
  got : List (Nat × List UInt8)
  fetch : Option (List Nat)

def Src.start : Src where
  stage := .sync
  leg := .before
  paused := false
  pend _ := True
  clean _ := False
  got := []
  fetch := none

inductive Party where
  | src (s : Src)
  | dst (d : Dst)
  | idle

-- ==== the discipline

/-- An address of guest RAM. -/
def InRam (R : List (Nat × Nat × RegionKind)) (a : Nat) : Prop :=
  ∃ r ∈ R, r.2.2 = .ram ∧ r.1 ≤ a ∧ a < r.1 + r.2.1

/-- What the source may put on the wire during a pass. A batch must hold
the pages read for it; an end of pass leaves no page of RAM to be sent; the
last one also leaves none dirty. -/
def Src.maySend (out : Outside) (R : List (Nat × Nat × RegionKind))
    (s : Src) (x : Decoded) : Prop :=
  s.leg ≠ .past ∧
  match x with
  | .ok (.memFetch _) => s.fetch = none
  | .ok (.pageBatch base count flags data) =>
    ∀ m m', applyPageBatch out m base count flags data s.fetch = .ok m' →
      m'.bytes = pokeAll m.bytes s.got
  | .ok .memEnd =>
    (∀ a, InRam R a → ¬ s.pend (a / pageSize)) ∧
    (s.leg = .last → s.paused = true ∧ ∀ a, InRam R a → s.clean (a / pageSize))
  | .ok .pauseSignal => s.leg = .before
  | _ => True

/-- A sent message, on the source. -/
def Src.sent (s : Src) (x : Decoded) : Src :=
  match x with
  | .ok (.memFetch gpas) => { s with fetch := some (gpas.map BitVec.toNat) }
  | .ok (.pageBatch ..) =>
    { s with
      pend := fun p => s.pend p ∧ ∀ e ∈ s.got, e.1 / pageSize ≠ p
      got := []
      fetch := none }
  | .ok .memEnd =>
    { s with stage := .wait, leg := s.leg.ended, fetch := none }
  | .ok .pauseSignal => { s with leg := .last, fetch := none }
  | _ => s

/-- A received frame, on the source. -/
def Src.received (out : Outside) (s : Src) (f : List UInt8) : Src :=
  match s.stage with
  | .sync =>
    if f.getLast? = some 0 then { s with stage := .live } else s
  | .wait =>
    match decode out f with
    | .ok .memDone =>
      { s with stage := if s.leg = .past then .sealed else .live }
    | _ => { s with stage := .failed }
  | _ => s

/-- After a call that leaves the world in doubt. -/
def Src.fail (s : Src) : Src :=
  if s.stage = .sealed then s else { s with stage := .failed }

/-- The pages of a chunk. -/
def chunkCovers (c : DirtyChunk) (p : Nat) : Prop :=
  c.gpa / pageSize ≤ p ∧ p < c.gpa / pageSize + c.len / pageSize

/-- Dirty bits read and cleared. -/
def Src.tracked (s : Src) (c : DirtyChunk) (bits : List UInt8) : Src :=
  { s with
    pend := fun p => s.pend p ∨ (chunkCovers c p ∧ bitSet bits (p - c.gpa / pageSize) = true)
    clean := fun p => s.clean p ∨ chunkCovers c p }

/-- A received message, on the destination. -/
def Dst.received (out : Outside) (x : Decoded) : Dst → Dst
  | .pass leg sparse =>
    if leg = .past then .pass leg sparse
    else match x, sparse with
      | .ok (.pageBatch base count flags data), gpas =>
        .apply leg base count flags data gpas
      | .ok (.memFetch gpas), none =>
        .pass leg (some (gpas.map BitVec.toNat))
      | .ok .memEnd, none => .ack leg.ended
      | .ok .pauseSignal, none =>
        if leg = .before then .pass .last none else .dead .last none
      | _, _ =>
        let r := Receiver.take out ⟨leg, sparse, none⟩ x
        .dead r.leg r.sparse
  | d => d

/-- An answer sent, on the destination. -/
def Dst.sent (f : List UInt8) (ok : Bool) : Dst → Dst
  | .sync =>
    if f.getLast? = some 0 then
      if ok then .pass .before none else .dead .before none
    else .sync
  | .ack leg =>
    if ok ∨ leg = .past then .pass leg none else .dead leg none
  | d => d

/-- A batch written, or not. -/
def Dst.applied (ok : Bool) : Dst → Dst
  | .apply leg .. => if ok then .pass leg none else .dead leg none
  | d => d

def ramAllow (out : Outside) (R : List (Nat × Nat × RegionKind)) : Party → Op → Prop
  | .src s, .setPhase p =>
    MigrationPhase.timeData.toNat ≤ p.toNat → s.stage = .sealed
  | .src s, .send f =>
    match s.stage with
    | .sync => ∃ d, decode out f = .ok (.serialized d)
    | .live => s.maySend out R (decode out f)
    | .sealed => True
    | _ => False
  | .src s, .recv => s.stage = .sync ∨ s.stage = .wait ∨ s.stage = .sealed
  | .src s, .memRead gpa => s.stage = .live ∧ gpa % pageSize = 0
  | .src s, .trackChunk _ => s.stage = .live ∧ s.got = []
  | .src s, .pause => s.stage = .live
  | .src _, .applyBatch .. => False
  | .src _, _ => True
  | .dst d, .send f => (∃ leg, d = .ack leg) ↔ decode out f = .ok .memDone
  | .dst d, .recv => d = .sync ∨ ∃ leg sparse, d = .pass leg sparse
  | .dst d, .applyBatch base count flags data sparse =>
    ∃ leg, d = .apply leg base count flags data sparse
  | .dst _, .trackChunk _ => False
  | .dst _, _ => True
  | .idle, _ => False

def ramCan (R : List (Nat × Nat × RegionKind)) : Party → (o : Op) → Ans o → Prop
  | .src _, .regions, a => a = R
  | .src _, .memRead _, .ok page => page.length = pageSize
  | .src _, .trackChunk c, .ok bits => bits.length = c.bitLen
  | _, _, _ => True

def ramNext (out : Outside) : Party → (o : Op) → Ans o → Party
  | .src s, .send f, .ok _ =>
    .src (if s.stage = .live then s.sent (decode out f) else s)
  | .src s, .send _, .error _ => .src s.fail
  | .src s, .recv, .ok f => .src (s.received out f)
  | .src s, .memRead gpa, .ok page =>
    .src { s with got := s.got ++ [(gpa, page)] }
  | .src s, .trackChunk c, .ok bits => .src (s.tracked c bits)
  | .src s, .pause, .ok _ =>
    .src { s with paused := true, clean := fun _ => False }
  | .src s, .resume, _ => .src s.fail
  | .dst d, .recv, .ok f => .dst (d.received out (decode out f))
  | .dst d, .send f, a => .dst (d.sent f a.isOk)
  | .dst d, .applyBatch .., a => .dst (d.applied a.isOk)
  | p, _, _ => p

def ramRules (out : Outside) (R : List (Nat × Nat × RegionKind)) : Discipline Op Ans Party where
  allow := ramAllow out R
  can := ramCan R
  next := ramNext out

-- ==== the invariant

/-- The source's books against the receiver at the far end of the wire. -/
structure View (w : World) (s : Src) (r : Receiver) : Prop where
  leg : r.leg = s.leg
  mem : ∀ m, r.mem = some m → r.sparse = s.fetch ∧
    ∀ a, m.bytes a = w.srcMem.bytes a ∨ w.dirty (a / pageSize) = true ∨ s.pend (a / pageSize)

/-- A page read for a batch holds the page's bytes, unless the page is
dirty. -/
def Fresh (w : World) (e : Nat × List UInt8) : Prop :=
  WholePage e ∧ (w.dirty (e.1 / pageSize) = true ∨ ∀ a, a / pageSize = e.1 / pageSize →
      e.2[a - e.1]? = some (w.srcMem.bytes a))

def isMemEnd (out : Outside) (f : List UInt8) : Bool :=
  match decode out f with
  | .ok .memEnd => true
  | _ => false

def isMemDone (out : Outside) (f : List UInt8) : Bool :=
  match decode out f with
  | .ok .memDone => true
  | _ => false

/-- Ends of pass that are not answered yet, and answers on their way. -/
def openEnds (out : Outside) (w : World) (d : Dst) (wire : List (List UInt8)) : Nat :=
  wire.countP (isMemEnd out) + d.acks + w.toSrc.countP (isMemDone out)

/-- The source keeps its books: it has not failed and has not finished. -/
def Stage.counting : Stage → Bool
  | .sync | .live | .wait => true
  | _ => false

/-- What ties the world to both threads. `wire` are the frames of the source
that the destination has not taken, those a cut has lost included. -/
structure RamInv (out : Outside) (R : List (Nat × Nat × RegionKind))
    (w : World) (s : Src) (d : Dst) (wire : List (List UInt8)) : Prop where
  near : w.toDst <+: wire
  whole : w.cut = false → w.toDst = wire
  regs : w.srcMem.regions = R
  phase : MigrationPhase.timeData.toNat ≤ w.srcPhase.toNat → s.stage = .sealed
  synced : d = .sync → s.stage = .sync ∨ s.stage = .failed
  okay : ∀ f ∈ w.toSrc, f.getLast? = some 0 → d ≠ .sync
  plain : d = .sync → s.stage = .sync → s.leg = .before ∧ s.fetch = none ∧ (∀ p, s.pend p) ∧
    ∀ f ∈ wire, ∃ b, decode out f = .ok (.serialized b)
  count : s.stage.counting = true → openEnds out w d wire ≤ if s.stage = .wait then 1 else 0
  view : s.stage.counting = true → d ≠ .sync →
    View w s (wire.foldl (absorb out) (d.standing out w.dstMem))
  fresh : s.stage.counting = true → ∀ e ∈ s.got, Fresh w e
  paused : s.stage.counting = true → s.paused = true →
    w.srcRunning = false ∧ w.ramAtPause = some w.srcMem.bytes ∧
    ∀ p, s.clean p → w.dirty p = false
  final : s.stage = .wait → s.leg = .past → s.paused = true ∧
    ∀ a, InRam R a → ¬ s.pend (a / pageSize) ∧ s.clean (a / pageSize)
  acked : s.stage = .wait → s.leg = .past →
    (∃ f ∈ w.toSrc, isMemDone out f = true) → ∃ g, d = .pass .past g
  sealed : s.stage = .sealed → (∃ g, d = .pass .past g) ∧ ∃ ram, w.ramAtPause = some ram ∧
      ∀ a, InRam R a → w.dstMem.bytes a = ram a

variable {w : World} {s : Src} {wire : List (List UInt8)}

/-- A source that has failed has nothing left to keep. -/
theorem RamInv.of_failed {d : Dst} (hs : s.stage = .failed)
    (hnear : w.toDst <+: wire) (hwhole : w.cut = false → w.toDst = wire)
    (hregs : w.srcMem.regions = R)
    (hphase : ¬ MigrationPhase.timeData.toNat ≤ w.srcPhase.toNat)
    (hokay : ∀ f ∈ w.toSrc, f.getLast? = some 0 → d ≠ .sync) :
    RamInv out R w s d wire := by
  have hc : s.stage.counting = false := by
    rw [hs]
    rfl
  constructor
  case near => exact hnear
  case whole => exact hwhole
  case regs => exact hregs
  case phase => exact fun h => absurd h hphase
  case synced => exact fun _ => .inr hs
  case okay => exact hokay
  all_goals
    intro h
    first
    | (rw [hc] at h; cases h)
    | (rw [hs] at h; cases h)
    | (intro h; rw [hs] at h; cases h)

/-- The parts of the world the transfer is about. -/
structure SameRam (w w' : World) : Prop where
  toDst : w'.toDst = w.toDst
  toSrc : w'.toSrc = w.toSrc
  cut : w'.cut = w.cut
  phase : w'.srcPhase = w.srcPhase
  running : w'.srcRunning = w.srcRunning
  srcMem : w'.srcMem = w.srcMem
  dstMem : w'.dstMem = w.dstMem
  dirty : w'.dirty = w.dirty
  atPause : w'.ramAtPause = w.ramAtPause

theorem RamInv.of_same {w' : World} {d : Dst} (h : RamInv out R w s d wire)
    (hw : SameRam w w') : RamInv out R w' s d wire := by
  obtain ⟨h1, h2, h3, h4, h5, h6, h7, h8, h9⟩ := hw
  obtain ⟨near, whole, regs, phase, synced, okay, plain, count, view, fresh,
    paused, final, acked, sealed⟩ := h
  cases w'
  dsimp only at h1 h2 h3 h4 h5 h6 h7 h8 h9
  subst h1 h2 h3 h4 h5 h6 h7 h8 h9
  exact ⟨near, whole, regs, phase, synced, okay, plain, count,
    fun hc hd => ⟨(view hc hd).leg, (view hc hd).mem⟩, fresh, paused, final,
    acked, sealed⟩

-- ==== the wire, far and near

variable {r : Receiver}

/-- Past the last end of pass nothing changes the receiver. -/
theorem foldl_absorb_past (h : r.leg = .past)
    (fs : List (List UInt8)) : fs.foldl (absorb out) r = r := by
  induction fs with
  | nil => rfl
  | cons f fs ih =>
    have hstep : absorb out r f = r := if_pos h
    rw [List.foldl_cons, hstep, ih]

/-- The destination takes a frame: the far end of the wire stays put. -/
theorem standing_received (m : GuestMem) (leg : Leg) (sparse : Option (List Nat)) (x : Decoded) :
    (Dst.received out x (.pass leg sparse)).standing out m
      = Receiver.take out ⟨leg, sparse, some m⟩ x := by
  cases x with
  | error e => cases leg <;> cases sparse <;> rfl
  | ok msg => cases msg <;> cases leg <;> cases sparse <;> rfl

/-- A receiver that still has a memory after a message has accepted it. -/
theorem Receiver.unlessOpen_some {m : GuestMem} (h : r.unlessOpen = some m) : r.mem = some m := by
  unfold Receiver.unlessOpen at h
  split at h
  · exact h
  · cases h

/-- The source sends what it may: the far end has it, and the books still
balance. -/
theorem View.send {x : Decoded} (h : View w s r) (hsend : s.maySend out R x)
    (hfresh : ∀ e ∈ s.got, Fresh w e) :
    View w (s.sent x) (r.take out x) := by
  obtain ⟨hpast, hmsg⟩ := hsend
  have hr : ¬ r.leg = .past := by
    rw [h.leg]
    exact hpast
  unfold Receiver.take
  rw [if_neg hr]
  cases x with
  | error e => exact ⟨h.leg, fun m hm => (nomatch hm)⟩
  | ok msg =>
    cases msg with
    | okay => exact ⟨h.leg, fun m hm => (nomatch hm)⟩
    | error e => exact ⟨h.leg, fun m hm => (nomatch hm)⟩
    | serialized b => exact ⟨h.leg, fun m hm => (nomatch hm)⟩
    | memDone => exact ⟨h.leg, fun m hm => (nomatch hm)⟩
    | memFetch gpas =>
      refine ⟨h.leg, fun m hm => ⟨rfl, ?_⟩⟩
      exact (h.mem m (Receiver.unlessOpen_some hm)).2
    | memEnd =>
      refine ⟨congrArg Leg.ended h.leg, fun m hm => ⟨rfl, ?_⟩⟩
      exact (h.mem m (Receiver.unlessOpen_some hm)).2
    | pauseSignal =>
      refine ⟨rfl, fun m hm => ⟨rfl, ?_⟩⟩
      have hleg : r.leg = .before := h.leg.trans hmsg
      dsimp only at hm
      rw [if_pos hleg] at hm
      exact (h.mem m (Receiver.unlessOpen_some hm)).2
    | pageBatch base count flags data =>
      refine ⟨h.leg, fun m' hm => ⟨rfl, fun a => ?_⟩⟩
      obtain ⟨m, hmem, happ⟩ := Option.bind_eq_some_iff.mp hm
      obtain ⟨hsparse, hbytes⟩ := h.mem m hmem
      have hok : applyPageBatch out m base count flags data s.fetch = .ok m' := by
        rw [← hsparse]
        cases hap : applyPageBatch out m base count flags data r.sparse with
        | error e =>
          rw [hap] at happ
          cases happ
        | ok m₁ =>
          rw [hap] at happ
          cases happ
          rfl
      rw [hmsg m m' hok]
      -- the address lies in a page of the batch, or keeps its byte
      rcases pokeAll_cases (fun e he => (hfresh e he).1) a with
        ⟨hnone, hsame⟩ | ⟨e, he, hpage, hget⟩
      · rw [hsame]
        rcases hbytes a with heq | hdirty | hpend
        · exact .inl heq
        · exact .inr (.inl hdirty)
        · exact .inr (.inr ⟨hpend, fun e he heq => hnone e he heq.symm⟩)
      · rcases (hfresh e he).2 with hdirty | hpageBytes
        · rw [← hpage] at hdirty
          exact .inr (.inl hdirty)
        · rw [hpageBytes a hpage] at hget
          exact .inl (Option.some.inj hget).symm

end Rshyve.Migrate.Session
