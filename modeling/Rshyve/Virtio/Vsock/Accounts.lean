/-
# The past of a vsock connection

What flow control and shutdown are about is not in the device's state: the
bytes that went each way since a connection was opened, the window the guest
last announced, the flags of the SHUTDOWN packets so far. An observer of the
machine writes them down (`Conc.Watch`), per port pair and from one opening
of it to the next. Per thread it writes down the guest packet the thread is
at, from the step that applies the packet to its connection on.
-/
import Rshyve.Conc.Watch
import Rshyve.Virtio.Vsock.Machine

namespace Rshyve.Virtio.Vsock

open Conc Function

def opCreditRequest : BitVec 16 := 7

/-- Both directions. -/
def shutdownBoth : BitVec 32 := shutdownRcv ||| shutdownSend

structure Accounts where
  /-- payload bytes queued for the guest -/
  sent : ConnKey → Nat
  /-- the guest's last word on its buffer: the size, the bytes consumed -/
  credit : ConnKey → BitVec 32 × BitVec 32
  /-- payload bytes the guest has sent -/
  received : ConnKey → Nat
  /-- the flags of the SHUTDOWN packets so far -/
  shut : ConnKey → BitVec 32
  /-- whether a SHUTDOWN packet ended the connection -/
  ended : ConnKey → Bool
  /-- the RST for it: whether the queue took it, the packets queued before -/
  reset : ConnKey → Option (Bool × Nat)
  /-- the packet with which a thread ends a connection, until the thread has
  removed the connection; whether the RST was handed to the queue -/
  closing : Nat → Option (VsockHdr × Bool)
  /-- the CREDIT_REQUEST a thread has applied, until its chain is returned -/
  asked : Nat → Option VsockHdr
  /-- the connection a thread has read the window of since its last header,
  and the bytes the guest had sent on it -/
  stamp : Nat → Option (ConnKey × Nat)

/-- Does this SHUTDOWN packet end a connection in this state? It does if it
shuts both directions, or the guest's one after the host's. -/
def ends (hdr : VsockHdr) (state : ConnState) : Bool :=
  hdr.op == opShutdown && (hdr.flags &&& shutdownBoth == shutdownBoth ||
      hdr.flags &&& shutdownSend != 0 && state == .localSendClosed)

namespace Accounts

def blank : Accounts :=
  ⟨fun _ => 0, fun _ => (0, 0), fun _ => 0, fun _ => 0, fun _ => false,
    fun _ => none, fun _ => none, fun _ => none, fun _ => none⟩

/-- A connection is opened under `key`. -/
def opened (l : Accounts) (key : ConnKey) (credit : BitVec 32 × BitVec 32) : Accounts :=
  { l with
    sent := update l.sent key 0
    credit := update l.credit key credit
    received := update l.received key 0
    shut := update l.shut key 0
    ended := update l.ended key false
    reset := update l.reset key none }

/-- A thread applies a packet of the guest to its connection. -/
def packet (l : Accounts) (t : Nat) (hdr : VsockHdr) (len : Nat) (state : ConnState) : Accounts :=
  let key := hdr.guestKey
  { l with
    credit := update l.credit key (hdr.bufAlloc, hdr.fwdCnt)
    received :=
      if hdr.op = opRw then
        update l.received key (l.received key + len)
      else l.received
    shut :=
      if hdr.op = opShutdown then
        update l.shut key (l.shut key ||| hdr.flags)
      else l.shut
    ended :=
      if ends hdr state then update l.ended key true else l.ended
    reset :=
      if ends hdr state then update l.reset key none else l.reset
    closing :=
      if ends hdr state then update l.closing t (some (hdr, false))
      else l.closing
    asked :=
      if hdr.op = opCreditRequest ∧ hdr.type = typeStream ∧ state ≠ .closed then
        update l.asked t (some hdr)
      else l.asked }

/-- A thread hands a header to the queue. -/
def pushed (l : Accounts) (t : Nat) (hdr : VsockHdr) (went : Bool) (queued : Nat) : Accounts :=
  let l := { l with stamp := update l.stamp t none }
  match l.closing t with
  | some (p, false) =>
    if hdr = p.reply opRst then
      { l with
        closing := update l.closing t (some (p, true))
        reset := update l.reset p.guestKey (some (went, queued)) }
    else l
  | _ => l

/-- A thread takes a connection out of the table. -/
def forgot (l : Accounts) (t : Nat) (key : ConnKey) : Accounts :=
  match l.closing t with
  | some (p, true) =>
    if key = p.guestKey then
      { l with closing := update l.closing t none }
    else l
  | _ => l

/-- What the observer writes after a step of thread `t`. -/
def note (t : Nat) : (o : Op) → Ans o → Shared → Accounts → Accounts
  | .acceptRequest hdr, some _, _, l =>
    l.opened hdr.guestKey (hdr.bufAlloc, hdr.fwdCnt)
  | .reserveHostConnect _, some (key, _), _, l => l.opened key (0, 0)
  | .queueHostData key _ data, rest, s, l =>
    if (s.conns key).isSome then
      { l with
        sent := update l.sent key (l.sent key + (data.length - rest.length)) }
    else l
  | .onPacket hdr len, _, s, l =>
    match s.conns hdr.guestKey with
    | none => l
    | some e => l.packet t hdr len e.conn.state
  | .pushRx hdr, went, s, l => l.pushed t hdr went s.rx.length
  | .forget key, _, _, l => l.forgot t key
  | .ourCredit key, window, _, l =>
    { l with
      stamp := update l.stamp t (window.map fun _ => (key, l.received key)) }
  | .pushUsed, _, _, l => { l with asked := update l.asked t none }
  | _, _, _, l => l

end Accounts

/-- The device and its observer. -/
def audited (guestCid : BitVec 64) : System Op Ans (Shared × Accounts) Choice Move :=
  (machine guestCid).watch Accounts.note

/-- A fresh device, and nothing written down. -/
def startAudited (guestCid : BitVec 64) (space : Mem.AddressSpace) :
    Pool Op Ans (Shared × Accounts) :=
  (start guestCid space).beside .blank

-- ==== what is outstanding

/-- The bytes sent and not yet consumed, in the arithmetic of the 32-bit
counters. -/
def outstanding (sent : Nat) (fwdCnt : BitVec 32) : Nat :=
  (BitVec.ofNat 32 sent - fwdCnt).toNat

/-- A counter that stands for what the guest did consume gives what it did
not. -/
theorem outstanding_of_consumed {sent consumed : Nat} (hle : consumed ≤ sent)
    (hlt : sent - consumed < 2 ^ 32) :
    outstanding sent (BitVec.ofNat 32 consumed) = sent - consumed := by
  unfold outstanding
  rw [BitVec.toNat_sub, BitVec.toNat_ofNat, BitVec.toNat_ofNat]
  omega

end Rshyve.Virtio.Vsock
