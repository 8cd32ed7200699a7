/-
# What a thread of the vsock device owes

Between two steps on the connection table a thread may owe something: a
packet that ended a connection is answered with an RST and the connection is
removed; a window that was read goes out on one header; a CREDIT_REQUEST gets
nothing. `Duty` is that debt and `Duty.rules` the discipline: a thread in
debt takes no other step. Every program of the device keeps it
(`keeps_thread`). Every loop comes back to owing nothing, so the programs are
steady and `simp` runs them, up to the two that recurse over a list and the
one packet handler where the debts arise (`steady_onGuestPacket`).
-/
import Rshyve.Virtio.Vsock.Accounts

namespace Rshyve.Virtio.Vsock

open Conc Discipline

inductive Duty where
  | free
  /-- a window was read for the header that comes next -/
  | stamped (key : ConnKey) (window : Option (BitVec 32 × BitVec 32))
  /-- a CREDIT_REQUEST was applied -/
  | silent
  /-- a SHUTDOWN has closed the connection: the RST is due -/
  | answer (hdr : VsockHdr)
  /-- the RST is out: the removal is due -/
  | remove (hdr : VsockHdr)
  deriving DecidableEq, Repr

namespace Duty

/-- A header without a window. -/
def Bare (h : VsockHdr) : Prop := h.bufAlloc = 0 ∧ h.fwdCnt = 0

/-- A thread that owes something may do nothing else. -/
@[simp] def allow : Duty → Op → Prop
  | free, .pushRx h => Bare h
  | free, _ => True
  | stamped key window, o =>
    ∃ h, o = .pushRx h ∧ h.hostKey = key ∧
      (h.op = opRequest ∨ h.op = opResponse) ∧
      (h.bufAlloc, h.fwdCnt) = window.getD (0, 0)
  | silent, o => o = .pushUsed
  | answer hdr, o => o = .pushRx (hdr.reply opRst)
  | remove hdr, o => o = .forget hdr.guestKey

/-- A packet that gets an RST has closed its connection, and a SHUTDOWN that
finds or leaves it closed gets one. -/
def can (_ : Duty) : (o : Op) → Ans o → Prop
  | .onPacket hdr _, some r =>
    (r.closed = false → r.reply = none) ∧
      (hdr.op = opShutdown → r.closed = true → r.reply = some opRst)
  | _, _ => True

@[simp] def next : Duty → (o : Op) → Ans o → Duty
  | free, .ourCredit key, window => stamped key window
  | free, .onPacket hdr _, some r =>
    if hdr.op = opShutdown ∧ r.closed = true then answer hdr
    else if hdr.op = opCreditRequest ∧ r.closed = false then silent
    else free
  | answer hdr, .pushRx _, _ => remove hdr
  | _, _, _ => free

def rules : Discipline Op Ans Duty := ⟨allow, can, next⟩

-- ==== single steps

/-- A step of a thread that owes nothing. -/
@[simp] theorem steady_free {o : Op} {Q : Duty → Ans o → Prop} :
    rules.Steady (R := no_index (Ans o)) (.call o) Q free ↔
      allow free o ∧ ∀ a, can free o a → Q (next free o a) a := Iff.rfl

/-- A step of a thread that has read a window. -/
@[simp] theorem steady_stamped {o : Op} {Q : Duty → Ans o → Prop}
    {key : ConnKey} {window : Option (BitVec 32 × BitVec 32)} :
    rules.Steady (R := no_index (Ans o)) (.call o) Q (stamped key window) ↔
      allow (stamped key window) o ∧ ∀ a, can (stamped key window) o a →
        Q (next (stamped key window) o a) a := Iff.rfl

variable {Q : Duty → Unit → Prop}

-- ==== host to guest

@[simp] theorem steady_writeBlob {Q : Duty → Nat → Prop} (blob : List UInt8)
    (bufs : List ChainBuf) (written : Nat) (hQ : ∀ n, Q free n) :
    rules.Steady (writeBlob blob bufs written) Q free := by
  induction bufs generalizing written with
  | nil => exact hQ written
  | cons b bufs ih =>
    cases b with
    | readable addr len => exact ih written
    | writable addr len => simp [writeBlob, ih, hQ]

@[simp] theorem steady_deliverRx (hQ : Q free ()) :
    rules.Steady deliverRx Q free := by
  simp [deliverRx, pairRx, pairOne, writePacket, splitPacket, Option.forall,
    hQ]

@[simp] theorem steady_stashRx (hQ : Q free ()) :
    rules.Steady stashRx Q free := by
  have hback (refused : List Nat) {Q : Duty → Unit → Prop} (hQ : Q free ()) :
      rules.Steady (forM refused fun head => step (.publish head 0 none))
        Q free := by
    induction refused with
    | nil => exact hQ
    | cons head rest ih => simp [ih]
  simp [stashRx, hQ, hback]

-- ==== the mux

section Mux

variable {guestCid : BitVec 64}

theorem steady_queueHostClose (key : ConnKey) (hQ : Q free ()) :
    rules.Steady (queueHostClose guestCid key) Q free := by
  simp [queueHostClose, Option.forall, Bare, hdrFor, hQ]

theorem steady_acceptGuestConnect (key : ConnKey) (hQ : Q free ()) :
    rules.Steady (acceptGuestConnect guestCid key) Q free := by
  simp [acceptGuestConnect, stampCredit, Option.forall, hdrFor,
    VsockHdr.hostKey, hQ]

theorem steady_refuseGuestConnect (key : ConnKey) (hQ : Q free ()) :
    rules.Steady (refuseGuestConnect guestCid key) Q free := by
  simp [refuseGuestConnect, Bare, hdrFor, hQ]

/-- What is left to do when the mux has looked at a packet: nothing, or the
chain of a CREDIT_REQUEST goes back. -/
def Looked : Duty → GuestAction → Prop
  | free, _ => True
  | silent, .none => True
  | _, _ => False

theorem steady_reset (hdr : VsockHdr) : rules.Steady (do
      discard <| step (.pushRx (hdr.reply opRst))
      pure GuestAction.none) Looked free :=
  ⟨⟨rfl, rfl⟩, fun _ _ => trivial⟩

/-- An RST if it is owed, then the removal if the connection is closed. -/
theorem steady_onGuestPacket (hdr : VsockHdr) (payload : List UInt8) :
    rules.Steady (onGuestPacket hdr payload) Looked free := by
  unfold onGuestPacket
  split
  · exact steady_reset hdr
  split
  · refine steady_bind.mpr ⟨trivial, fun id _ => ?_⟩
    cases id with
    | none => exact steady_reset hdr
    | some id => exact trivial
  refine steady_bind.mpr ⟨trivial, fun found hcan => ?_⟩
  cases found with
  | none =>
    split
    · exact steady_reset hdr
    · exact trivial
  | some r =>
  obtain ⟨reply, closed, accepts⟩ := r
  obtain ⟨hopen, hshut⟩ := hcan
  show rules.Steady (_ >>= _) _ _
  by_cases hans : hdr.op = opShutdown ∧ closed = true
  · obtain rfl : reply = some opRst := hshut hans.1 hans.2
    obtain rfl : closed = true := hans.2
    have hnext : rules.next free (.onPacket hdr payload.length)
        (some ⟨some opRst, true, accepts⟩) = answer hdr := if_pos hans
    rw [hnext]
    exact ⟨rfl, fun _ _ => ⟨rfl, fun _ _ => trivial⟩⟩
  cases closed with
  | true =>
    have hop : hdr.op ≠ opShutdown := fun h => hans ⟨h, rfl⟩
    have hnext : rules.next free (.onPacket hdr payload.length)
        (some ⟨reply, true, accepts⟩) = free := by
      simp [rules, hop]
    rw [hnext]
    cases reply with
    | none => exact ⟨trivial, fun _ _ => trivial⟩
    | some op =>
      exact ⟨⟨rfl, rfl⟩, fun _ _ => ⟨trivial, fun _ _ => trivial⟩⟩
  | false =>
    obtain rfl : reply = none := hopen rfl
    by_cases hask : hdr.op = opCreditRequest
    · have hnext : rules.next free (.onPacket hdr payload.length)
          (some ⟨none, false, accepts⟩) = silent := by
        simp [rules, hask]
      have hrw : ¬ (hdr.op = opRw ∧ accepts = true ∧ payload ≠ []) := by
        rw [hask]
        exact fun h => absurd h.1 (by decide)
      rw [hnext]
      refine steady_bind.mpr ?_
      rw [if_neg hrw]
      exact trivial
    · have hnext : rules.next free (.onPacket hdr payload.length)
          (some ⟨none, false, accepts⟩) = free := by
        simp [rules, hask]
      rw [hnext]
      refine steady_bind.mpr ?_
      show rules.Steady (if hdr.op = opRw ∧ accepts = true ∧ payload ≠ [] then
        pure (GuestAction.deliver hdr.guestKey) else pure GuestAction.none)
        Looked free
      split <;> exact trivial

-- ==== the sockets

theorem steady_writeHost (key : ConnKey) (hQ : Q free ()) :
    rules.Steady (writeHost guestCid key) Q free := by
  simp [writeHost, steady_queueHostClose, Option.forall, hQ]

theorem steady_connectOut (key : ConnKey) (id : Nat) (hQ : Q free ()) :
    rules.Steady (connectOut guestCid key id) Q free := by
  simp [connectOut, steady_acceptGuestConnect, steady_refuseGuestConnect, hQ]

/-- A packet is done with, up to returning its chain. -/
theorem steady_handleTxChain (hdr : VsockHdr) (payload : List UInt8) :
    rules.Steady (handleTxChain guestCid hdr payload)
      (fun l _ => l = free ∨ l = silent) free := by
  refine steady_bind.mpr ((steady_onGuestPacket hdr payload).mono ?_)
  intro l action hl
  cases l with
  | free =>
    cases action with
    | none => exact .inl rfl
    | deliver key => exact steady_writeHost key (.inl rfl)
    | close key => exact ⟨trivial, fun _ _ => .inl rfl⟩
    | connect key id => exact steady_connectOut key id (.inl rfl)
  | silent =>
    cases action with
    | none => exact .inr rfl
    | deliver _ | close _ | connect _ _ => exact hl.elim
  | stamped _ _ | answer _ | remove _ => exact hl.elim

/-- Returning the chain settles what a CREDIT_REQUEST leaves. -/
theorem steady_drainTx (hQ : Q free ()) :
    rules.Steady (drainTx guestCid) Q free := by
  have hpacket (hdr : VsockHdr) (payload : List UInt8) {P : Duty → Prop}
      (hP : P free) :
      rules.Steady (handleTxChain guestCid hdr payload) (fun l _ =>
        rules.Steady (step .pushUsed) (fun l _ => P l) l) free := by
    refine (steady_handleTxChain hdr payload).mono ?_
    rintro l _ (rfl | rfl)
    · exact ⟨trivial, fun _ _ => hP⟩
    · exact ⟨rfl, fun _ _ => hP⟩
  simp [drainTx, Option.forall, hpacket, hQ]

-- ==== the readers

theorem steady_readerLoop (key : ConnKey) (id : Nat) (hQ : Q free ()) :
    rules.Steady (readerLoop guestCid key id) Q free := by
  have hread {P : ReadResult → Prop} :
      (∀ r, P r) ↔ (∀ bytes, P (.data bytes)) ∧ P .again ∧ P .closed :=
    ⟨fun h => ⟨fun _ => h _, h _, h _⟩, fun h r => by cases r <;> simp [h]⟩
  simp [readerLoop, feed, steady_queueHostClose, hread, hQ]

theorem steady_startHostConnection (port : BitVec 32) (hQ : Q free ()) :
    rules.Steady (startHostConnection guestCid port) Q free := by
  have hloop (key : ConnKey) (id : Nat) :
      rules.Steady (readerLoop guestCid key id) Q free :=
    steady_readerLoop key id hQ
  simp [startHostConnection, announceHostConnect, stampCredit, Option.forall,
    hdrFor, VsockHdr.hostKey, hloop, hQ]

-- ==== the threads

theorem steady_run (job : Job) (hQ : Q free ()) :
    rules.Steady (run guestCid job) Q free := by
  cases job <;> simp [run, underTransport, retireRings, steady_readerLoop,
    steady_startHostConnection, steady_drainTx, hQ]

theorem keeps_thread : rules.Keeps (thread guestCid) (fun _ _ => False) free := by
  refine Steady.keeps ?_
  simp [thread, steady_run]

end Mux

end Duty

end Rshyve.Virtio.Vsock
