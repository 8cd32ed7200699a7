/-
# What the vsock threads may do

`Loc` is one thread's place: the locks it holds, whether it is past the test
of the pause, what it has in hand of the receive ring, whether it knows the
ring's completion handler to be there (`ready` in a delivery, `ensured` in a
kick), the connection it reads for with the bytes the mux has yet to take,
and whether it owes the guest a delivery (`due`). A thread that queues
something owes one. The debt is paid in the pass that finds the queue, the
stash or the ring empty, or by finding the device paused.

`rules` is the discipline over it, and `keeps_thread` shows that every
thread keeps it. What is proved about the device are invariants over these
local states.
-/
import Rshyve.Virtio.Vsock.Machine

namespace Rshyve.Virtio.Vsock

open Conc Discipline
open Keeps (seq)

-- ==== local states

/-- Where a thread is in taking the ring back. -/
inductive Stage where
  | none
  | closed
  | drained
  | dropped
  | cleared
  deriving DecidableEq

structure Loc where
  inJob : Bool
  vcpu : Bool
  transport : Bool
  past : Bool
  pass : Bool
  sect : Bool
  ready : Bool
  chain : Bool
  hand : Option RxPacket
  due : Bool
  ensured : Bool
  stage : Stage
  serves : Option (ConnKey × Nat)
  data : List UInt8

namespace Loc

/-- Between two jobs. -/
def idle : Loc :=
  ⟨false, false, false, false, false, false, false, false, none, false, false, .none, none, []⟩

/-- At the start of a job. -/
def started : Job → Loc
  | .reader key id => { idle with inJob := true, serves := some (key, id) }
  | .kickRx | .kickTx | .retire => { idle with inJob := true, vcpu := true }
  | _ => { idle with inJob := true }

/-- Outside of `deliver_rx` and of `retire_rings`. -/
structure Ground (l : Loc) : Prop where
  inJob : l.inJob = true
  past : l.past = false
  pass : l.pass = false
  sect : l.sect = false
  ready : l.ready = false
  chain : l.chain = false
  hand : l.hand = none
  stage : l.stage = .none

/-- In a pass, between two packets. -/
@[mk_iff]
structure InPass (l : Loc) : Prop where
  past : l.past = true
  pass : l.pass = true
  sect : l.sect = false
  chain : l.chain = false
  hand : l.hand = none

/-- In a pass, with the permission for one packet. -/
@[mk_iff]
structure InSect (chain : Bool) (hand : Option RxPacket) (l : Loc) : Prop where
  past : l.past = true
  pass : l.pass = true
  sect : l.sect = true
  chain : l.chain = chain
  hand : l.hand = hand

def holds (l : Loc) : Lock → Prop
  | .transport => l.transport = true
  | .delivery => l.pass = true

end Loc

/-- A packet, or a part of it. -/
def SamePacket (p h : RxPacket) : Prop :=
  p.origin = h.origin ∧ p.hdr.hostKey = h.hdr.hostKey

-- ==== the discipline

def allow (l : Loc) : Op → Prop
  | .begin => l = .idle
  | .finish => l.Ground ∧ l.due = false ∧ l.transport = false
  | .lock .transport =>
    l.Ground ∧ l.transport = false ∧ l.due = false ∧ l.vcpu = true
  | .unlock .transport => l.Ground ∧ l.transport = true ∧ l.due = false
  | .lock .delivery => l.past = true ∧ l.pass = false ∧ l.sect = false ∧
      l.chain = false ∧ l.hand = none
  | .unlock .delivery => l.InPass ∧ l.due = false
  | .pause | .resume | .isPaused => l.Ground
  | .returned => l.pass = false ∧ l.sect = false ∧ l.chain = false ∧
      l.hand = none ∧ l.due = false ∧ l.inJob = true
  | .rxIsEmpty | .enter => l.InPass ∧ l.due = true
  | .leave => l.InSect false none
  | .handler => l.InSect false none ∧ l.due = true
  | .popChain => l.InSect false none ∧ l.due = true ∧ l.ready = true
  | .popRx => l.InSect true none ∧ l.due = true
  | .unpopChain _ => l.InSect true none
  | .requeueRxFront p => ∃ h, l.InSect true (some h) ∧ l.due = true ∧
      SamePacket p h ∧ ∃ front, h.payload = front ++ p.payload
  | .poke .. => ∃ h, l.InSect true (some h)
  | .publish _ written (some p) => ∃ h, l.InSect true (some h) ∧
      SamePacket p h ∧ p.payload = h.payload ∧
      hdrSize + p.payload.length ≤ written
  | .publish _ _ none => (∃ h, l.InSect true (some h) ∧ h.payload = []) ∨
      l.Ground ∧ l.transport = true ∧ l.vcpu = true
  | .ensureHandler => l.Ground ∧ l.transport = true
  | .stash => l.Ground ∧ l.transport = true ∧ l.ensured = true
  | .close => l.Ground ∧ l.transport = true ∧ l.ensured = false
  | .drain => l.stage = .closed
  | .dropHandler => l.stage = .drained
  | .clearPending => l.stage = .dropped
  | .reopen => l.stage = .cleared
  | .queueHostData key id data =>
    l.Ground ∧ l.serves = some (key, id) ∧ l.data = data
  | .read id => l.Ground ∧ l.data = [] ∧ ∃ key, l.serves = some (key, id)
  | .spawn key id => l.Ground ∧ l.serves = some (key, id) ∧ l.data = []
  | .acceptRequest _ | .reserveHostConnect _ => l.Ground
  | _ => l.Ground

/-- What the guest's memory map decides is decided in the device's favour:
the runs under consideration write to writable memory only. -/
def can (_ : Loc) : (o : Op) → Ans o → Prop
  | .poke .., went => went = true
  | _, _ => True

def next (l : Loc) : (o : Op) → Ans o → Loc
  | .begin, job => .started job
  | .finish, _ => .idle
  | .lock .transport, _ => { l with transport := true }
  | .unlock .transport, _ => { l with transport := false, ensured := false }
  | .lock .delivery, _ => { l with pass := true }
  | .unlock .delivery, _ => { l with pass := false }
  | .resume, _ | .stash, _ | .pushRx _, _ => { l with due := true }
  | .isPaused, paused =>
    if paused then { l with due := false }
    else { l with past := true, due := true }
  | .returned, _ => { l with past := false }
  | .rxIsEmpty, empty => if empty then { l with due := false } else l
  | .enter, went =>
    if went then { l with sect := true } else { l with due := false }
  | .leave, _ => { l with sect := false, ready := false }
  | .handler, found =>
    if found then { l with ready := true } else { l with due := false }
  | .popChain, some _ => { l with chain := true }
  | .popChain, none => { l with due := false }
  | .popRx, some p => { l with hand := some p }
  | .popRx, none => { l with due := false }
  | .unpopChain _, _ => { l with chain := false }
  | .requeueRxFront p, _ =>
    { l with
      hand := l.hand.map fun h =>
        { h with
          payload := h.payload.take (h.payload.length - p.payload.length) } }
  | .publish .., _ => { l with chain := false, hand := none }
  | .ensureHandler, _ => { l with ensured := true }
  | .close, _ => { l with stage := .closed }
  | .drain, _ => { l with stage := .drained }
  | .dropHandler, _ => { l with stage := .dropped }
  | .clearPending, _ => { l with stage := .cleared }
  | .reopen, _ => { l with stage := .none }
  | .queueHostData .., rest => { l with data := rest, due := true }
  | .read _, .data bytes => { l with data := bytes }
  | .spawn .., true => { l with serves := none }
  | .acceptRequest hdr, some id =>
    { l with serves := some (hdr.guestKey, id), data := [] }
  | .reserveHostConnect _, some r => { l with serves := some r, data := [] }
  | _, _ => l

def rules : Discipline Op Ans Loc := ⟨allow, can, next⟩

-- ==== host to guest

@[simp] theorem steady_step {o : Op} {Q : Loc → Ans o → Prop} {l : Loc} :
    rules.Steady (R := no_index (Ans o)) (.call o) Q l ↔
      allow l o ∧ ∀ a, can l o a → Q (next l o a) a := Iff.rfl

/-- Inside a pass begun from `l`. -/
def Loc.passing (l : Loc) (due : Bool) : Loc :=
  { l with past := true, pass := true, due := due }

/-- With the permission, a chain and a packet. -/
def Loc.carrying (l : Loc) (h : RxPacket) : Loc :=
  { l.passing true with
    sect := true
    ready := true
    chain := true
    hand := some h }

/-- With the permission, and the packet gone. -/
def Loc.relieved (l : Loc) : Loc :=
  { l.passing true with
    sect := true
    ready := true
    chain := false
    hand := none }

section Delivery

variable {l : Loc} {h : RxPacket}

theorem inSect_carrying (h : RxPacket) :
    (l.carrying h).InSect true (some h) := ⟨rfl, rfl, rfl, rfl, rfl⟩

/-- Every buffer takes what it is given, so as much of the blob is written
as the buffers have room for. -/
theorem steady_writeBlob {blob : List UInt8} {bufs : List ChainBuf}
    {written : Nat} (hle : written ≤ blob.length) :
    rules.Steady (writeBlob blob bufs written) (fun y w => y = l.carrying h ∧
        min blob.length (written + capacity bufs) ≤ w) (l.carrying h) := by
  induction bufs generalizing written with
  | nil => simp [writeBlob, capacity]
  | cons b bufs ih =>
    cases b with
    | readable addr len => exact ih hle
    | writable addr len =>
      have hcap : capacity (.writable addr len :: bufs) = len + capacity bufs := rfl
      rw [hcap]
      unfold writeBlob
      simp only []
      split
      · exact ⟨rfl, by omega⟩
      · refine steady_bind.mpr ⟨⟨h, inSect_carrying h⟩, ?_⟩
        rintro went (rfl : went = true)
        refine (@ih (written + min len (blob.length - written)) (by omega)).mono ?_
        rintro y w ⟨hy, hw⟩
        exact ⟨hy, by omega⟩

/-- The part of the packet with room stays in hand. -/
theorem steady_splitPacket {room : Nat} : rules.Steady (splitPacket room h)
      (fun y p => ∃ h', y = l.carrying h' ∧ SamePacket p h' ∧
        p.payload = h'.payload ∧ p.payload.length ≤ room) (l.carrying h) := by
  unfold splitPacket
  split
  next hmore =>
    have hcut : h.payload.length - (h.payload.drop room).length = room := by
      rw [List.length_drop]
      omega
    refine steady_bind.mpr ⟨⟨h, inSect_carrying h, rfl, ⟨rfl, rfl⟩,
      h.payload.take room, (List.take_append_drop _ _).symm⟩, fun _ _ => ?_⟩
    refine ⟨{ h with payload := h.payload.take room }, ?_, ⟨rfl, rfl⟩, rfl,
      List.length_take_le _ _⟩
    show l.carrying { h with
      payload := h.payload.take (_ - (h.payload.drop room).length) } = _
    rw [hcut]
  next hfits =>
    exact ⟨h, rfl, ⟨rfl, rfl⟩, rfl, Nat.le_of_not_lt hfits⟩

/-- A packet is written as far as it fits, and its chain published. -/
theorem steady_writePacket {chain : Chain} : rules.Steady (writePacket chain h)
      (fun y _ => y = l.relieved) (l.carrying h) := by
  unfold writePacket
  split
  next hsmall =>
    refine steady_bind.mpr ⟨⟨h, inSect_carrying h, rfl, ⟨rfl, rfl⟩, [], rfl⟩, fun _ _ => ?_⟩
    refine ⟨.inl ⟨{ h with payload := [] }, ⟨rfl, rfl, rfl, rfl, ?_⟩, rfl⟩, fun _ _ => rfl⟩
    show some { h with payload := h.payload.take _ } = _
    rw [Nat.sub_self, List.take_zero]
  next hroom =>
    refine steady_bind.mpr (steady_splitPacket.mono ?_)
    rintro y p ⟨h', rfl, hsame, hpay, hlen⟩
    refine steady_bind.mpr ((steady_writeBlob (Nat.zero_le _)).mono ?_)
    rintro y w ⟨rfl, hw⟩
    refine ⟨⟨h', inSect_carrying h', hsame, hpay, ?_⟩, fun _ _ => rfl⟩
    have hblob : p.blob.length = hdrSize + p.payload.length := by
      simp [RxPacket.blob]
    omega

/-- One round of the pass keeps the debt, and the round that ends the pass
has paid it. -/
theorem steady_pairOne (hl : l.Ground) :
    rules.Steady pairOne (fun y more => y = l.passing more) (l.passing true) := by
  have hwrite (chain : Chain) (h : RxPacket) {Q : Loc → Unit → Prop}
      (hQ : Q l.relieved ()) :
      rules.Steady (writePacket chain h) Q (l.carrying h) :=
    steady_writePacket.mono fun _ _ hy => hy ▸ hQ
  simp only [Loc.carrying, Loc.relieved, Loc.passing] at hwrite
  simp [pairOne, Option.forall, allow, next, Loc.passing, Loc.inPass_iff,
    Loc.inSect_iff, hl.sect, hl.chain, hl.hand, hl.ready, hwrite]

/-- `deliver_rx` pays the debt and leaves everything else as it was. -/
theorem keeps_deliverRx (hl : l.Ground) :
    rules.Keeps deliverRx (fun y _ => y = { l with due := false }) l := by
  have hround {Q : Loc → Bool → Prop} (hQ : ∀ more, Q (l.passing more) more) :
      rules.Steady pairOne Q (l.passing true) :=
    (steady_pairOne hl).mono fun _ more hy => hy ▸ hQ more
  simp only [Loc.passing, hl.sect, hl.chain, hl.hand, hl.inJob] at hround
  apply Steady.keeps
  simp [deliverRx, pairRx, allow, next, Bool.forall_bool, Loc.inPass_iff, hl,
    hl.pass, hl.past, hl.sect, hl.chain, hl.hand, hl.inJob, hround]

end Delivery

-- ==== the mux

/-- Closed under what queueing and delivering do to a local state. -/
structure Chatty (J : Loc → Prop) : Prop where
  ground : ∀ l, J l → l.Ground
  due : ∀ l due, J l → J { l with due := due }

/-- Steps open to every thread outside of a delivery, which change at most
what it owes. -/
@[simp] def Plain : Op → Prop
  | .closeLocalSend _ | .pushRx _ | .forget _ | .containsKey _ | .ourCredit _
  | .onPacket .. | .registerSocket .. | .dropSocket _ | .releaseSocket ..
  | .socketOf _ | .hostWrite _ | .reserveReader | .dial | .isShutdown
  | .nextPacket | .pushUsed | .moreAvail => True
  | _ => False

section Mux

variable {J : Loc → Prop} (hJ : Chatty J) {guestCid : BitVec 64}
include hJ

theorem stays_plain {R : Type} {p : Prog R} (h : Only Plain p fun _ => True) :
    rules.Stays J p := by
  refine stays_only h fun o ho l hl => ?_
  have hground := hJ.ground l hl
  cases o with
  | pushRx hdr => exact ⟨hground, fun _ _ => hJ.due l true hl⟩
  | _ => first
    | exact ho.elim
    | exact ⟨hground, fun _ _ => hl⟩

theorem stays_deliverRx : rules.Stays J deliverRx := by
  intro l hl
  refine (keeps_deliverRx (hJ.ground l hl)).mono fun y _ hy => ?_
  rw [hy]
  exact hJ.due l false hl

theorem stays_announceHostConnect (key : ConnKey) :
    rules.Stays J (announceHostConnect guestCid key) :=
  stays_plain hJ (by simp [announceHostConnect, stampCredit, Option.forall])

theorem stays_queueHostClose (key : ConnKey) :
    rules.Stays J (queueHostClose guestCid key) :=
  stays_plain hJ (by simp [queueHostClose, Option.forall])

theorem stays_acceptGuestConnect (key : ConnKey) :
    rules.Stays J (acceptGuestConnect guestCid key) :=
  stays_plain hJ (by simp [acceptGuestConnect, stampCredit, Option.forall])

theorem stays_refuseGuestConnect (key : ConnKey) :
    rules.Stays J (refuseGuestConnect guestCid key) :=
  stays_plain hJ (by simp [refuseGuestConnect])

theorem stays_writeHost (key : ConnKey) :
    rules.Stays J (writeHost guestCid key) := by
  have hclose : rules.Stays J
      (queueHostClose guestCid key >>= fun _ => deliverRx) :=
    (stays_queueHostClose hJ key).seq fun _ => stays_deliverRx hJ
  refine (stays_plain hJ (by simp)).seq fun found => ?_
  cases found with
  | none => exact hclose
  | some id =>
    refine (stays_plain hJ (by simp)).seq fun wrote => ?_
    cases wrote with
    | true => exact stays_ret
    | false =>
      refine (stays_plain hJ (by simp)).seq fun released => ?_
      cases released with
      | false => exact stays_ret
      | true => exact hclose

end Mux

-- ==== the transmit ring

/-- In a callback of the transport, with the transport's lock. -/
structure Loc.Callback (l : Loc) : Prop extends l.Ground where
  vcpu : l.vcpu = true
  transport : l.transport = true

section Transmit

variable {guestCid : BitVec 64}

theorem chatty_callback : Chatty Loc.Callback where
  ground _ hl := hl.toGround
  due _ _ hl := { hl with }

/-- The connection a request has opened is the callback's to serve until a
reader has it. -/
def Loc.Opened (key : ConnKey) (id : Nat) (l : Loc) : Prop :=
  l.Callback ∧ l.serves = some (key, id) ∧ l.data = []

theorem chatty_opened (key : ConnKey) (id : Nat) : Chatty (Loc.Opened key id) where
  ground _ hl := hl.1.toGround
  due l due hl := ⟨chatty_callback.due l due hl.1, hl.2⟩

/-- Where the callback is once the mux has looked at a packet. -/
def Loc.Acting (l : Loc) : GuestAction → Prop
  | .connect key id => l.Opened key id
  | _ => l.Callback

theorem keeps_onGuestPacket {l : Loc} (hl : l.Callback) (hdr : VsockHdr) (payload : List UInt8) :
    rules.Keeps (onGuestPacket hdr payload) Loc.Acting l := by
  have hJ := chatty_callback
  have hreset : ∀ y : Loc, y.Callback → rules.Keeps (do
      discard <| step (.pushRx (hdr.reply opRst))
      pure GuestAction.none) Loc.Acting y := fun y hy =>
    seq (stays_plain hJ (by simp) y hy)
  unfold onGuestPacket
  split
  · exact hreset l hl
  split
  · refine seq ⟨hl.toGround, fun id _ => ?_⟩
    cases id with
    | none => exact hreset l hl
    | some id =>
      exact ⟨{ hl with }, rfl, rfl⟩
  refine seq ⟨hl.toGround, fun found _ => ?_⟩
  cases found with
  | none =>
    split
    · exact hreset l hl
    · exact hl
  | some r =>
    refine seq ((stays_plain hJ ?_).keeps hl fun y _ hy => ?_)
    · cases r.reply <;> simp
    split
    · exact seq ((stays_plain hJ (by simp)).keeps hy fun y _ hy => hy)
    split
    · exact hy
    · exact hy

theorem keeps_connectOut {l : Loc} {key : ConnKey} {id : Nat} (hl : l.Opened key id) :
    rules.Keeps (connectOut guestCid key id) (fun y _ => y.Callback) l := by
  have hJ := chatty_opened key id
  have hrefuse : ∀ y : Loc, y.Opened key id → rules.Keeps (refuseGuestConnect guestCid key)
        (fun y _ => y.Callback) y := fun y hy =>
    (stays_refuseGuestConnect hJ key).keeps hy fun _ _ h => h.1
  refine seq ((stays_plain hJ (by simp)).keeps hl ?_)
  intro y room hy
  cases room with
  | false => exact hrefuse y hy
  | true =>
  refine seq ((stays_plain hJ (by simp)).keeps hy ?_)
  intro y dialled hy
  cases dialled with
  | false => exact hrefuse y hy
  | true =>
  refine seq ((stays_plain hJ (by simp)).keeps hy ?_)
  intro y _ hy
  refine seq ((stays_acceptGuestConnect hJ key).keeps hy ?_)
  intro y _ hy
  refine seq ⟨⟨hy.1.toGround, hy.2⟩, fun spawned _ => ?_⟩
  cases spawned with
  | true => exact { hy.1 with }
  | false =>
    exact seq ((stays_plain hJ (by simp)).keeps hy fun y _ hy => hrefuse y hy)

theorem stays_handleTxChain (hdr : VsockHdr) (payload : List UInt8) :
    rules.Stays Loc.Callback (handleTxChain guestCid hdr payload) := by
  intro l hl
  refine (keeps_onGuestPacket hl hdr payload).comp ?_
  intro y action hy
  cases action with
  | none => exact hy
  | deliver key => exact stays_writeHost chatty_callback key y hy
  | close key => exact stays_plain chatty_callback (by simp) y hy
  | connect key id => exact keeps_connectOut hy

/-- The replies to what was taken off the ring are delivered before the
callback ends. -/
theorem keeps_drainTx {l : Loc} (hl : l.Callback) (hdue : l.due = false) :
    rules.Keeps (drainTx guestCid) (fun y _ => y.Callback ∧ y.due = false)
      l := by
  have hJ := chatty_callback
  refine seq (keeps_loop (fun used y => y.Callback ∧ (used = false → y.due = false))
    ⟨hl, fun _ => hdue⟩ ?_)
  intro used y hy
  refine seq ⟨hy.1.toGround, fun packet _ => ?_⟩
  cases packet with
  | none =>
    cases used with
    | false => exact ⟨hy.1, hy.2 rfl⟩
    | true =>
      refine (keeps_deliverRx hy.1.toGround).mono fun z _ hz => ?_
      rw [hz]
      exact ⟨hJ.due y false hy.1, rfl⟩
  | some packet =>
    refine seq ((stays_handleTxChain packet.1 packet.2).keeps hy.1 ?_)
    intro z _ hz
    refine seq ((stays_plain hJ (by simp)).keeps hz ?_)
    intro z _ hz
    exact ⟨hz, fun h => nomatch h⟩

end Transmit

-- ==== the receive ring

/-- In a kick of the receive ring, past `ensure_rx_completion`. -/
structure Loc.Stashing (l : Loc) : Prop extends l.Callback where
  ensured : l.ensured = true

/-- A chain that cannot be read goes back empty. -/
theorem stays_refused (refused : List Nat) : rules.Stays Loc.Stashing
    (refused.forM fun head => step (.publish head 0 none)) := by
  induction refused with
  | nil => exact stays_ret
  | cons head rest ih =>
    refine Stays.seq ?_ fun _ => ih
    intro l hl
    refine ⟨.inr ⟨hl.toGround, hl.transport, hl.vcpu⟩, fun _ _ => ?_⟩
    exact { hl with chain := rfl, hand := rfl }

/-- What a callback has stashed is delivered before it ends. -/
theorem keeps_stashRx {l : Loc} (hl : l.Callback) :
    rules.Keeps stashRx (fun y _ => y.Callback ∧ y.due = false) l := by
  have hJ := chatty_callback
  refine seq ⟨⟨hl.toGround, hl.transport⟩, fun _ _ => ?_⟩
  have hin : ({ l with ensured := true } : Loc).Stashing :=
    { hl with ensured := rfl }
  refine seq (keeps_loop (fun _ y => y.Stashing) hin ?_)
  intro _ y hy
  refine seq ⟨⟨hy.toGround, hy.transport, hy.ensured⟩, fun refused _ => ?_⟩
  refine seq ((stays_refused refused).keeps ⟨hJ.due y true hy.toCallback, hy.ensured⟩ ?_)
  intro z _ hz
  refine seq ⟨hz.toGround, fun more _ => ?_⟩
  cases more with
  | true => exact hz
  | false =>
    refine (keeps_deliverRx hz.toGround).mono fun w _ hw => ?_
    rw [hw]
    exact ⟨hJ.due z false hz.toCallback, rfl⟩

theorem keeps_retireRings {l : Loc} (hl : l.Callback) (hdue : l.due = false)
    (hens : l.ensured = false) :
    rules.Keeps retireRings (fun y _ => y.Callback ∧ y.due = false) l := by
  refine seq ⟨⟨hl.toGround, hl.transport, hens⟩, fun _ _ => ?_⟩
  refine seq ⟨rfl, fun _ _ => ?_⟩
  refine seq ⟨rfl, fun _ _ => ?_⟩
  refine seq ⟨rfl, fun _ _ => ?_⟩
  show rules.Keeps _ _ { l with stage := .cleared }
  refine ⟨rfl, fun _ _ => ⟨?_, hdue⟩⟩
  exact { hl with stage := rfl }

-- ==== the readers

/-- Serving a connection, outside of a delivery. -/
structure Loc.Reads (key : ConnKey) (id : Nat) (l : Loc) : Prop
    extends l.Ground where
  transport : l.transport = false
  ensured : l.ensured = false
  serves : l.serves = some (key, id)

/-- Outside of a delivery and of a callback, at whatever. -/
structure Loc.Free (l : Loc) : Prop extends l.Ground where
  transport : l.transport = false
  ensured : l.ensured = false

section Readers

variable {guestCid : BitVec 64} {key : ConnKey} {id : Nat}

theorem chatty_reads (key : ConnKey) (id : Nat) : Chatty (Loc.Reads key id) where
  ground _ hl := hl.toGround
  due _ _ hl := { hl with }

variable {l : Loc}

/-- The local state with other bytes left to hand over. -/
theorem Loc.Reads.with_data (hl : l.Reads key id)
    (data : List UInt8) : ({ l with data := data } : Loc).Reads key id :=
  { hl with }

/-- Everything read is handed over, or the device shuts down. -/
theorem keeps_feed (hl : l.Reads key id) {data : List UInt8} (hdata : l.data = data) :
    rules.Keeps (feed key id data) (fun y done => y.Reads key id ∧
      y.due = false ∧ (done = true → y.data = [])) l := by
  refine keeps_loop (fun data y => y.Reads key id ∧ y.data = data) ⟨hl, hdata⟩ ?_
  intro data y ⟨hy, hd⟩
  refine seq ⟨⟨hy.toGround, hy.serves, hd⟩, fun rest _ => ?_⟩
  have hrest : ({ y with data := rest, due := true } : Loc).Reads key id :=
    (chatty_reads key id).due _ true (hy.with_data rest)
  refine (keeps_deliverRx hrest.toGround).comp ?_
  intro z _ hz
  have hread : z.Reads key id := by
    rw [hz]
    exact (chatty_reads key id).due _ false hrest
  have hleft : z.data = rest := by rw [hz]
  have hpaid : z.due = false := by rw [hz]
  split
  next hnil => exact ⟨hread, hpaid, fun _ => hleft.trans hnil⟩
  next hmore =>
    refine seq ⟨hread.toGround, fun down _ => ?_⟩
    cases down with
    | true => exact ⟨hread, hpaid, fun h => nomatch h⟩
    | false => exact ⟨hread, hleft⟩

theorem keeps_readerLoop (hl : l.Reads key id) (hdata : l.data = []) (hdue : l.due = false) :
    rules.Keeps (readerLoop guestCid key id) (fun y _ => y.Free ∧ y.due = false) l := by
  have hJ := chatty_reads key id
  have hfree : ∀ {y : Loc}, y.Reads key id → y.Free :=
    fun hy => ⟨hy.toGround, hy.transport, hy.ensured⟩
  refine (keeps_loop (Q := fun y _ => y.Reads key id ∧ y.due = false)
    (fun _ y => y.Reads key id ∧ y.data = [] ∧ y.due = false)
    ⟨hl, hdata, hdue⟩ ?_).comp ?_
  · intro _ y ⟨hy, hd, hpaid⟩
    refine seq ⟨hy.toGround, fun down _ => ?_⟩
    cases down with
    | true => exact ⟨hy, hpaid⟩
    | false =>
    refine seq ⟨⟨hy.toGround, hd, key, hy.serves⟩, fun got _ => ?_⟩
    cases got with
    | again => exact ⟨hy, hd, hpaid⟩
    | closed => exact ⟨hy, hpaid⟩
    | data bytes =>
      refine seq ((keeps_feed (hy.with_data bytes) rfl).mono ?_)
      intro z done ⟨hz, hpaid, hall⟩
      cases done with
      | true => exact ⟨hz, hall rfl, hpaid⟩
      | false => exact ⟨hz, hpaid⟩
  · intro y ended ⟨hy, hpaid⟩
    cases ended with
    | false => exact ⟨hfree hy, hpaid⟩
    | true =>
    refine seq ⟨hy.toGround, fun released _ => ?_⟩
    cases released with
    | false => exact ⟨hfree hy, hpaid⟩
    | true =>
    refine seq ((stays_queueHostClose hJ key).keeps hy ?_)
    intro z _ hz
    refine (keeps_deliverRx hz.toGround).mono fun w _ hw => ?_
    rw [hw]
    exact ⟨hfree (hJ.due z false hz), rfl⟩

theorem keeps_startHostConnection (hl : l.Free) (hdue : l.due = false) (port : BitVec 32) :
    rules.Keeps (startHostConnection guestCid port) (fun y _ => y.Free ∧ y.due = false) l := by
  refine seq ⟨hl.toGround, fun got _ => ?_⟩
  cases got with
  | none => exact ⟨hl, hdue⟩
  | some r =>
  obtain ⟨key, id⟩ := r
  have hJ := chatty_reads key id
  have hground : ({ l with serves := some (key, id), data := [] } : Loc).Ground := { hl with }
  refine seq ⟨hground, fun wrote _ => ?_⟩
  cases wrote with
  | false => exact ⟨hground, fun _ _ =>
    ⟨⟨hground, hl.transport, hl.ensured⟩, hdue⟩⟩
  | true =>
  refine seq ⟨hground, fun _ _ => ?_⟩
  refine seq ((stays_announceHostConnect (J := fun y =>
    y.Reads key id ∧ y.data = []) ?_ key).keeps ⟨⟨hground, hl.transport, hl.ensured, rfl⟩, rfl⟩ ?_)
  · exact ⟨fun y hy => hy.1.toGround, fun y due hy => ⟨hJ.due y due hy.1, hy.2⟩⟩
  · intro y _ ⟨hy, hd⟩
    refine (keeps_deliverRx hy.toGround).comp ?_
    intro z _ hz
    subst hz
    exact keeps_readerLoop (hJ.due y false hy) hd rfl

end Readers

-- ==== the threads

/-- A callback is given the transport's lock and gives it back. -/
theorem keeps_underTransport {l : Loc} (hl : l.Free) (hdue : l.due = false)
    (hvcpu : l.vcpu = true) {p : Prog Unit}
    (hp : ∀ y : Loc, y.Callback → y.due = false → y.ensured = false →
      rules.Keeps p (fun z _ => z.Callback ∧ z.due = false) y) :
    rules.Keeps (underTransport p) (fun y _ => y.Free ∧ y.due = false) l := by
  refine seq ⟨⟨hl.toGround, hl.transport, hdue, hvcpu⟩, fun _ _ => ?_⟩
  have hin : ({ l with transport := true } : Loc).Callback :=
    { hl with vcpu := hvcpu, transport := rfl }
  refine (hp _ hin hdue hl.ensured).comp ?_
  intro z _ ⟨hz, hpaid⟩
  refine ⟨⟨hz.toGround, hz.transport, hpaid⟩, fun _ _ => ⟨?_, hpaid⟩⟩
  exact { hz with transport := rfl, ensured := rfl }

theorem free_started (job : Job) : (Loc.started job).Free := by
  cases job <;> exact ⟨⟨rfl, rfl, rfl, rfl, rfl, rfl, rfl, rfl⟩, rfl, rfl⟩

theorem due_started (job : Job) : (Loc.started job).due = false := by
  cases job <;> rfl

theorem keeps_run {guestCid : BitVec 64} (job : Job) :
    rules.Keeps (run guestCid job) (fun y _ => y.Free ∧ y.due = false) (.started job) := by
  have hfree := free_started job
  have hdue := due_started job
  cases job with
  | reader key id =>
    exact keeps_readerLoop ⟨hfree.toGround, rfl, rfl, rfl⟩ rfl rfl
  | hostConnect port => exact keeps_startHostConnection hfree hdue port
  | kickRx =>
    exact keeps_underTransport hfree hdue rfl fun _ hy _ _ =>
      keeps_stashRx hy
  | kickTx =>
    exact keeps_underTransport hfree hdue rfl fun _ hy hd _ =>
      keeps_drainTx hy hd
  | retire =>
    exact keeps_underTransport hfree hdue rfl fun _ hy hd he =>
      keeps_retireRings hy hd he
  | pause => exact ⟨hfree.toGround, fun _ _ => ⟨hfree, hdue⟩⟩
  | resume =>
    refine seq ⟨hfree.toGround, fun _ _ => ?_⟩
    have hground : ({ Loc.started .resume with due := true } : Loc).Ground :=
      { hfree with }
    refine (keeps_deliverRx hground).mono fun y _ hy => ?_
    rw [hy]
    exact ⟨{ hfree with }, rfl⟩

theorem keeps_thread (guestCid : BitVec 64) :
    rules.Keeps (thread guestCid) (fun _ _ => False) .idle := by
  refine keeps_loop (fun _ y => y = .idle) rfl ?_
  intro _ y hy
  subst hy
  refine seq ⟨rfl, fun job _ => ?_⟩
  refine (keeps_run job).comp ?_
  intro y _ ⟨hy, hdue⟩
  refine seq ⟨⟨hy.toGround, hdue, hy.transport⟩, ?_⟩
  exact fun _ _ => rfl

end Rshyve.Virtio.Vsock
