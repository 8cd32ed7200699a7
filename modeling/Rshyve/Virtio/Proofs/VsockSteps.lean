/-
# What one step of the vsock device does

The shapes of the compound steps, and the two facts about locks and places
that hold whatever is asked of the device: the table of locks says what the
threads hold (`tied_step`), and a thread's places nest (`Loc.Nested`): a
packet in hand means a chain, a chain means the permission, the permission
means the pass.
-/
import Rshyve.Virtio.Proofs.VsockRules

namespace Rshyve.Virtio.Vsock

open Conc Function

-- ==== the compound steps

variable {ι α : Type}

theorem update_eq_some [DecidableEq ι] {R : ι → Option α}
    {t u : ι} {x : Option α} {y : α} (h : update R t x u = some y) :
    u = t ∧ x = some y ∨ u ≠ t ∧ R u = some y := by
  by_cases hu : u = t
  · subst hu
    rw [update_self] at h
    exact .inl ⟨rfl, h⟩
  · rw [update_of_ne hu] at h
    exact .inr ⟨hu, h⟩

/-- What is there after one is gone was there. -/
theorem of_update_none [DecidableEq ι] {R : ι → Option α}
    {t u : ι} {y : α} (h : update R t none u = some y) : R u = some y := by
  rcases update_eq_some h with ⟨-, h⟩ | ⟨-, h⟩
  · cases h
  · exact h

variable {key : ConnKey} {o : Op} {a : Ans o}

namespace Shared

variable {s : Shared}

theorem pushRx_cases (s : Shared) (p : RxPacket) : s.pushRx p = (false, s) ∨
    s.pushRx p = (true, { s with
      rx := s.rx ++ [p]
      rxBytes := s.rxBytes + p.payload.length }) := by
  unfold pushRx
  split
  · exact .inl rfl
  split
  · exact .inl rfl
  · exact .inr rfl

/-- The packet `queue_host_data` queues for a part of what it is offered. -/
def hostPacket (guestCid : BitVec 64) (key : ConnKey) (conn : VsockConn)
    (id take : Nat) (data : List UInt8) : RxPacket :=
  ⟨{ hdrFor guestCid key opRw with
      len := BitVec.ofNat 32 take
      bufAlloc := conn.bufAlloc
      fwdCnt := conn.fwdCnt }, data.take take, id⟩

/-- The state once that packet is queued. -/
def afterHostPacket (guestCid : BitVec 64) (s : Shared) (key : ConnKey)
    (e : Entry) (id take : Nat) (data : List UInt8) : Shared :=
  let p := hostPacket guestCid key e.conn id take data
  { s with
    rx := s.rx ++ [p]
    rxBytes := s.rxBytes + p.payload.length
    conns := update s.conns key (some { e with conn := e.conn.recordSent take })
    buf := update s.buf id (data.drop take)
    accepted := s.accepted ++ tagged p }

/-- On a connection in the table nothing fits, or a part that the window has
room for is queued. -/
theorem queueHostData_found {guestCid : BitVec 64} {e : Entry}
    (he : s.conns key = some e) (id : Nat) (data : List UInt8) :
    s.queueHostData guestCid key id data = (data, s) ∨
    ∃ take, 0 < take ∧ take ≤ e.conn.peerCredit ∧ take ≤ data.length ∧
      s.queueHostData guestCid key id data =
        (data.drop take, s.afterHostPacket guestCid key e id take data) := by
  unfold queueHostData
  simp only [he]
  split
  · exact .inl rfl
  next hpos =>
    rcases pushRx_cases s (hostPacket guestCid key e.conn id
      (min e.conn.peerCredit data.length) data) with h | h
    · unfold hostPacket at h
      rw [h]
      exact .inl rfl
    · refine .inr ⟨min e.conn.peerCredit data.length, by omega,
        Nat.min_le_left _ _, Nat.min_le_right _ _, ?_⟩
      unfold afterHostPacket hostPacket at *
      rw [h]

/-- The connection is gone, nothing fits, or a part is queued. -/
theorem queueHostData_cases (guestCid : BitVec 64) (s : Shared)
    (key : ConnKey) (id : Nat) (data : List UInt8) :
    (s.conns key = none ∧ s.queueHostData guestCid key id data =
      ([], { s with buf := update s.buf id [] })) ∨
    s.queueHostData guestCid key id data = (data, s) ∨
    ∃ e take, s.conns key = some e ∧ s.queueHostData guestCid key id data =
      (data.drop take, s.afterHostPacket guestCid key e id take data) := by
  cases he : s.conns key with
  | none =>
    refine .inl ⟨rfl, ?_⟩
    unfold queueHostData
    rw [he]
  | some e =>
    rcases queueHostData_found he id data with h | ⟨take, -, -, -, h⟩
    · exact .inr (.inl h)
    · exact .inr (.inr ⟨e, take, rfl, h⟩)

theorem forget_cases (s : Shared) (key : ConnKey) : s.conns key = none ∧ s.forget key = s ∨
    s.forget key = { s with
      conns := update s.conns key none
      connCount := s.connCount - 1 } := by
  unfold forget
  split
  next h => exact .inl ⟨h, rfl⟩
  · exact .inr rfl

theorem conns_forget (s : Shared) (key : ConnKey) : (s.forget key).conns key = none := by
  rcases s.forget_cases key with ⟨hnone, h⟩ | h
  · rw [h]
    exact hnone
  · rw [h]
    exact update_self _ _ _

/-- A port pair is found only where the table has none. -/
theorem reserveFrom_cases (port : BitVec 32) (n : Nat) (s : Shared) :
    ∃ next, reserveFrom port n s = (none, { s with nextHostPort := next }) ∨
      ∃ key, s.conns key = none ∧ reserveFrom port n s = (some (key, s.nextId),
          { s with nextHostPort := next }.insert key (.new .connecting)) := by
  induction n generalizing s with
  | zero => exact ⟨s.nextHostPort, .inl rfl⟩
  | succ n ih =>
    unfold reserveFrom
    simp only []
    split
    · exact ih _
    next hfree => exact ⟨_, .inr ⟨_, hfree, rfl⟩⟩

end Shared

section Steps

variable {guestCid : BitVec 64} {s s' : Shared} {t : Nat} {c : Choice}

/-- A reader is one that was spawned, a vCPU is written down. -/
theorem begin_cases {job : Job} (hex : s.exec guestCid t c .begin = some (job, s')) :
    (∃ key id, job = .reader key id ∧ (key, id) ∈ s.spawned ∧
      s' = { s with spawned := s.spawned.erase (key, id) }) ∨
    ((job = .kickRx ∨ job = .kickTx ∨ job = .retire) ∧ s' = { s with vcpus := t :: s.vcpus }) ∨
    ((∃ port, job = .hostConnect port) ∨ job = .pause ∨ job = .resume) ∧ s' = s := by
  simp only [Shared.exec, Shared.begin] at hex
  split at hex
  next key id _ =>
    split at hex
    next hmem =>
      cases hex
      exact .inl ⟨key, id, rfl, hmem, rfl⟩
    · cases hex
  · cases hex
    exact .inr (.inl ⟨.inl rfl, rfl⟩)
  · cases hex
    exact .inr (.inl ⟨.inr (.inl rfl), rfl⟩)
  · cases hex
    exact .inr (.inl ⟨.inr (.inr rfl), rfl⟩)
  next hr hk hx ht =>
    cases hex
    refine .inr (.inr ⟨?_, rfl⟩)
    cases hjob : c.job with
    | hostConnect port => exact .inl ⟨port, rfl⟩
    | pause => exact .inr (.inl rfl)
    | resume => exact .inr (.inr rfl)
    | reader key id => exact absurd hjob (hr key id)
    | kickRx => exact absurd hjob hk
    | kickTx => exact absurd hjob hx
    | retire => exact absurd hjob ht

theorem isPaused_cases {a : Bool} (hex : s.exec guestCid t c .isPaused = some (a, s')) :
    (s.paused = true ∧ a = true ∧ s' = s) ∨
    (s.paused = false ∧ a = false ∧ s' = { s with past := t :: s.past }) := by
  cases hex
  by_cases hp : s.paused = true
  · exact .inl ⟨hp, hp, if_pos hp⟩
  · exact .inr ⟨Bool.eq_false_of_not_eq_true hp, Bool.eq_false_of_not_eq_true hp, if_neg hp⟩

theorem enter_cases {a : Bool} (hex : s.exec guestCid t c .enter = some (a, s')) :
    (s.isOpen = true ∧ a = true ∧ s' = { s with sect := some t }) ∨
    (s.isOpen = false ∧ a = false ∧ s' = s) := by
  cases hex
  by_cases ho : s.isOpen = true
  · exact .inl ⟨ho, ho, if_pos ho⟩
  · exact .inr ⟨Bool.eq_false_of_not_eq_true ho, Bool.eq_false_of_not_eq_true ho, if_neg ho⟩

theorem popChain_cases {a : Option Chain} (hex : s.exec guestCid t c .popChain = some (a, s')) :
    (s.pending = [] ∧ a = none ∧ s' = s) ∨
    ∃ chain rest, s.pending = chain :: rest ∧ a = some chain ∧ s' = { s with pending := rest } := by
  simp only [Shared.exec] at hex
  split at hex
  next h =>
    cases hex
    exact .inl ⟨h, rfl, rfl⟩
  next chain rest h =>
    cases hex
    exact .inr ⟨chain, rest, h, rfl, rfl⟩

theorem releaseSocket_cases {id : Nat} {a : Bool}
    (hex : s.exec guestCid t c (.releaseSocket key id) = some (a, s')) :
    ∃ sockets, s' = { s with sockets := sockets } := by
  simp only [Shared.exec] at hex
  split at hex
  · cases hex
    exact ⟨_, rfl⟩
  · cases hex
    exact ⟨s.sockets, rfl⟩

theorem popRx_cases {a : Option RxPacket} (hex : s.exec guestCid t c .popRx = some (a, s')) :
    (s.rx = [] ∧ a = none ∧ s' = s) ∨
    ∃ p rest, s.rx = p :: rest ∧ a = some p ∧ s' = { s with
      rx := rest
      rxBytes := s.rxBytes - p.payload.length
      hand := some p } := by
  simp only [Shared.exec, Shared.popRx] at hex
  split at hex
  next h =>
    cases hex
    exact .inl ⟨h, rfl, rfl⟩
  next p rest h =>
    cases hex
    exact .inr ⟨p, rest, h, rfl, rfl⟩

variable {hdr : VsockHdr}

theorem pushRx_cases {a : Bool} (hex : s.exec guestCid t c (.pushRx hdr) = some (a, s')) :
    (a = false ∧ s' = s.call t) ∨
    (a = true ∧ s' = { s with
      rx := s.rx ++ [RxPacket.control hdr]
      rxBytes := s.rxBytes + 0 }.call t) := by
  rcases s.pushRx_cases (.control hdr) with h | h
  all_goals
    simp only [Shared.exec, h] at hex
    cases hex
  · exact .inl ⟨rfl, rfl⟩
  · exact .inr ⟨rfl, rfl⟩

theorem queueHostData_cases {id : Nat} {data a : List UInt8}
    (hex : s.exec guestCid t c (.queueHostData key id data) = some (a, s')) :
    (s.conns key = none ∧ a = [] ∧ s' = { s with buf := update s.buf id [] }.call t) ∨
    (a = data ∧ s' = s.call t) ∨
    ∃ e take, s.conns key = some e ∧ a = data.drop take ∧
      s' = (s.afterHostPacket guestCid key e id take data).call t := by
  rcases s.queueHostData_cases guestCid key id data with
    ⟨hn, h⟩ | h | ⟨e, take, he, h⟩
  all_goals
    simp only [Shared.exec, h] at hex
    cases hex
  · exact .inl ⟨hn, rfl, rfl⟩
  · exact .inr (.inl ⟨rfl, rfl⟩)
  · exact .inr (.inr ⟨e, take, he, rfl, rfl⟩)

theorem forget_cases {a : Unit} (hex : s.exec guestCid t c (.forget key) = some (a, s')) :
    s' = s ∨ s' = { s with
      conns := update s.conns key none
      connCount := s.connCount - 1 } := by
  cases hex
  exact (s.forget_cases key).imp_left And.right

/-- A guest gets a new entry in a table with room, or none. -/
theorem acceptRequest_cases {a : Option Nat}
    (hex : s.exec guestCid t c (.acceptRequest hdr) = some (a, s')) :
    (a = none ∧ s' = s) ∨
    (s.conns hdr.guestKey = none ∧ s.connCount < maxConns ∧
      a = some s.nextId ∧ s' = s.insert hdr.guestKey
        ((VsockConn.new .established).absorbCredit hdr)) := by
  simp only [Shared.exec, Shared.acceptRequest] at hex
  split at hex
  · cases hex
    exact .inl ⟨rfl, rfl⟩
  next hroom =>
    cases hex
    rw [not_or, Nat.not_le, Option.not_isSome_iff_eq_none] at hroom
    exact .inr ⟨hroom.1, hroom.2, rfl, rfl⟩

/-- A host peer gets a new entry in a table with room, or none. -/
theorem reserveHostConnect_cases {port : BitVec 32} {a : Option (ConnKey × Nat)}
    (hex : s.exec guestCid t c (.reserveHostConnect port) = some (a, s')) :
    ∃ next, (a = none ∧ s' = { s with nextHostPort := next }) ∨
      ∃ key, s.conns key = none ∧ s.connCount < maxConns ∧ a = some (key, s.nextId) ∧
        s' = { s with nextHostPort := next }.insert key (.new .connecting) := by
  simp only [Shared.exec, Shared.reserveHostConnect] at hex
  split at hex
  · cases hex
    exact ⟨s.nextHostPort, .inl ⟨rfl, rfl⟩⟩
  next hroom =>
    obtain ⟨next, h | ⟨key, hfree, h⟩⟩ :=
      Shared.reserveFrom_cases port (maxConns + 1) s
    all_goals
      rw [h] at hex
      cases hex
    · exact ⟨next, .inl ⟨rfl, rfl⟩⟩
    · exact ⟨next, .inr ⟨key, hfree, Nat.lt_of_not_le hroom, rfl, rfl⟩⟩

/-- A packet changes the state of the connection it is for, and leaves its
number alone. -/
theorem onPacket_cases {len : Nat} {a}
    (hex : s.exec guestCid t c (.onPacket hdr len) = some (a, s')) :
    (s.conns hdr.guestKey = none ∧ a = none ∧ s' = s) ∨
    ∃ e, s.conns hdr.guestKey = some e ∧
      a = some ⟨(e.conn.onPacket hdr).2, (e.conn.onPacket hdr).1.isClosed,
        (e.conn.onPacket hdr).1.acceptsGuestData⟩ ∧
      s' = { s with conns := update s.conns hdr.guestKey (some { e with
        conn := if hdr.op = opRw then (e.conn.onPacket hdr).1.recordForwarded len
          else (e.conn.onPacket hdr).1 }) } := by
  simp only [Shared.exec, Shared.onPacket] at hex
  split at hex
  next he =>
    cases hex
    exact .inl ⟨he, rfl, rfl⟩
  next e he =>
    cases hex
    exact .inr ⟨e, he, rfl, rfl⟩

theorem closeLocalSend_cases {a : Option Bool}
    (hex : s.exec guestCid t c (.closeLocalSend key) = some (a, s')) :
    s' = s ∨ ∃ e conn, s.conns key = some e ∧ s' = { s with
      conns := update s.conns key (some { e with conn := conn }) } := by
  simp only [Shared.exec, Shared.closeLocalSend] at hex
  split at hex
  · cases hex
    exact .inl rfl
  next e he =>
    cases hex
    exact .inr ⟨e, _, he, rfl⟩

theorem read_cases {id : Nat} {a : ReadResult}
    (hex : s.exec guestCid t c (.read id) = some (a, s')) :
    ((∀ bytes, a ≠ .data bytes) ∧ s' = s) ∨
    ∃ n, a = .data ((s.unread id).take n) ∧ s' = { s with
      unread := update s.unread id ((s.unread id).drop n)
      buf := update s.buf id ((s.unread id).take n) } := by
  simp only [Shared.exec, Shared.read] at hex
  split at hex
  · cases hex
    exact .inr ⟨c.count, rfl, rfl⟩
  · cases hex
    refine .inl ⟨fun bytes => ?_, rfl⟩
    split
    · intro h
      cases h
    · intro h
      cases h

-- ==== the frame

/-- The steps that can change the table of connections. -/
def Tabled : Op → Prop
  | .queueHostData .. | .closeLocalSend _ | .forget _
  | .reserveHostConnect _ | .acceptRequest _ | .onPacket .. => True
  | _ => False

/-- The steps that take or give back a lock. -/
def Locking : Op → Prop
  | .lock _ | .unlock _ => True
  | _ => False

/-- The steps that can change the receive queue. -/
def Queueing : Op → Prop
  | .pushRx _ | .queueHostData .. | .popRx | .requeueRxFront _ => True
  | _ => False

/-- What a step leaves alone. -/
structure Framed (o : Op) (s s' : Shared) : Prop where
  locks : ¬ Locking o → s'.locks = s.locks
  table : ¬ Tabled o → s'.conns = s.conns ∧ s'.connCount = s.connCount
  queue : ¬ Queueing o → s'.rx = s.rx ∧ s'.rxBytes = s.rxBytes

theorem Framed.same (hlocks : s'.locks = s.locks) (hconns : s'.conns = s.conns)
    (hcount : s'.connCount = s.connCount) (hrx : s'.rx = s.rx)
    (hbytes : s'.rxBytes = s.rxBytes) : Framed o s s' :=
  ⟨fun _ => hlocks, fun _ => ⟨hconns, hcount⟩, fun _ => ⟨hrx, hbytes⟩⟩

/-- A step on the table leaves the locks and the queue alone. -/
theorem Framed.tabled (ho : Tabled o) (hlocks : s'.locks = s.locks)
    (hrx : s'.rx = s.rx) (hbytes : s'.rxBytes = s.rxBytes) : Framed o s s' :=
  ⟨fun _ => hlocks, fun h => absurd ho h, fun _ => ⟨hrx, hbytes⟩⟩

/-- A step on the queue leaves the locks and the table alone. -/
theorem Framed.queueing (ho : Queueing o) (hlocks : s'.locks = s.locks)
    (hconns : s'.conns = s.conns) (hcount : s'.connCount = s.connCount) :
    Framed o s s' :=
  ⟨fun _ => hlocks, fun _ => ⟨hconns, hcount⟩, fun h => absurd ho h⟩

theorem framed_exec (hex : s.exec guestCid t c o = some (a, s')) : Framed o s s' := by
  cases o with
  | begin =>
    obtain ⟨key, id, -, -, rfl⟩ | ⟨-, rfl⟩ | ⟨-, rfl⟩ := begin_cases hex
    all_goals exact .same rfl rfl rfl rfl rfl
  | lock l =>
    obtain ⟨locks, -, heq⟩ := Option.map_eq_some_iff.mp hex
    cases heq
    exact ⟨fun h => absurd trivial h, fun _ => ⟨rfl, rfl⟩, fun _ => ⟨rfl, rfl⟩⟩
  | unlock l =>
    obtain ⟨locks, -, heq⟩ := Option.map_eq_some_iff.mp hex
    cases heq
    exact ⟨fun h => absurd trivial h, fun _ => ⟨rfl, rfl⟩, fun _ => ⟨rfl, rfl⟩⟩
  | isPaused =>
    obtain ⟨-, -, rfl⟩ | ⟨-, -, rfl⟩ := isPaused_cases hex
    all_goals exact .same rfl rfl rfl rfl rfl
  | enter =>
    obtain ⟨-, -, rfl⟩ | ⟨-, -, rfl⟩ := enter_cases hex
    all_goals exact .same rfl rfl rfl rfl rfl
  | popChain =>
    obtain ⟨-, -, rfl⟩ | ⟨chain, rest, -, -, rfl⟩ := popChain_cases hex
    all_goals exact .same rfl rfl rfl rfl rfl
  | drain =>
    obtain ⟨-, rfl⟩ := drain_cases hex
    exact .same rfl rfl rfl rfl rfl
  | publish _ written p =>
    cases hex
    cases p <;> exact .same rfl rfl rfl rfl rfl
  | spawn key id =>
    cases hex
    split <;> exact .same rfl rfl rfl rfl rfl
  | releaseSocket key id =>
    obtain ⟨sockets, rfl⟩ := releaseSocket_cases hex
    exact .same rfl rfl rfl rfl rfl
  | read id =>
    obtain ⟨-, rfl⟩ | ⟨n, -, rfl⟩ := read_cases hex
    all_goals exact .same rfl rfl rfl rfl rfl
  | popRx =>
    obtain ⟨-, -, rfl⟩ | ⟨p, rest, -, -, rfl⟩ := popRx_cases hex
    all_goals exact .queueing trivial rfl rfl rfl
  | requeueRxFront p =>
    cases hex
    exact .queueing trivial rfl rfl rfl
  | pushRx hdr =>
    obtain ⟨-, rfl⟩ | ⟨-, rfl⟩ := pushRx_cases hex
    all_goals exact .queueing trivial rfl rfl rfl
  | queueHostData key id data =>
    obtain ⟨-, -, rfl⟩ | ⟨-, rfl⟩ | ⟨e, take, -, -, rfl⟩ :=
      queueHostData_cases hex
    all_goals
      exact ⟨fun _ => rfl, fun h => absurd trivial h, fun h => absurd trivial h⟩
  | closeLocalSend key =>
    obtain rfl | ⟨e, conn, -, rfl⟩ := closeLocalSend_cases hex
    all_goals exact .tabled trivial rfl rfl rfl
  | forget key =>
    obtain rfl | rfl := forget_cases hex
    all_goals exact .tabled trivial rfl rfl rfl
  | reserveHostConnect port =>
    obtain ⟨n, ⟨-, rfl⟩ | ⟨key, -, -, -, rfl⟩⟩ :=
      reserveHostConnect_cases hex
    all_goals exact .tabled trivial rfl rfl rfl
  | acceptRequest hdr =>
    obtain ⟨-, rfl⟩ | ⟨-, -, -, rfl⟩ := acceptRequest_cases hex
    all_goals exact .tabled trivial rfl rfl rfl
  | onPacket hdr len =>
    obtain ⟨-, -, rfl⟩ | ⟨e, -, -, rfl⟩ := onPacket_cases hex
    all_goals exact .tabled trivial rfl rfl rfl
  | _ =>
    cases hex
    exact .same rfl rfl rfl rfl rfl

/-- Other steps leave a thread with the locks it has. -/
theorem holds_next {l : Loc} (hlock : ∀ l, o ≠ .lock l)
    (hunlock : ∀ l, o ≠ .unlock l) (hallow : allow l o) (m : Lock) :
    (next l o a).holds m ↔ l.holds m := by
  cases o with
  | lock k => exact absurd rfl (hlock k)
  | unlock k => exact absurd rfl (hunlock k)
  | begin =>
    obtain rfl : l = .idle := hallow
    cases a <;> cases m <;> rfl
  | finish =>
    obtain ⟨hground, -, htrans⟩ := hallow
    cases m with
    | transport => simp [next, Loc.holds, Loc.idle, htrans]
    | delivery => simp [next, Loc.holds, Loc.idle, hground.pass]
  | isPaused => cases a <;> cases m <;> rfl
  | rxIsEmpty => cases a <;> cases m <;> rfl
  | enter => cases a <;> cases m <;> rfl
  | handler => cases a <;> cases m <;> rfl
  | popChain => cases a <;> cases m <;> rfl
  | popRx => cases a <;> cases m <;> rfl
  | read id => cases a <;> cases m <;> rfl
  | spawn key id => cases a <;> cases m <;> rfl
  | acceptRequest hdr => cases a <;> cases m <;> rfl
  | reserveHostConnect port => cases a <;> cases m <;> rfl
  | _ => cases m <;> rfl

theorem tied_step {gh : Nat → Loc} (h : Tied s.locks Loc.holds gh)
    (hallow : allow (gh t) o) (hex : s.exec guestCid t c o = some (a, s')) :
    Tied s'.locks Loc.holds (update gh t (next (gh t) o a)) := by
  cases o with
  | lock k =>
    obtain ⟨locks, hacq, heq⟩ := Option.map_eq_some_iff.mp hex
    cases heq
    obtain ⟨hfree, rfl⟩ := Owners.acquire_eq_some.mp hacq
    refine h.acquire hfree fun m => ?_
    cases k <;> cases m <;> simp [next, Loc.holds]
  | unlock k =>
    obtain ⟨locks, hrel, heq⟩ := Option.map_eq_some_iff.mp hex
    cases heq
    obtain ⟨hown, rfl⟩ := Owners.release_eq_some.mp hrel
    refine h.release hown fun m => ?_
    cases k <;> cases m <;> simp [next, Loc.holds]
  | _ =>
    rw [(framed_exec hex).locks (fun h => h)]
    refine h.same fun m => holds_next ?_ ?_ hallow m <;> simp

/-- The holder of a lock is its only one. -/
theorem Tied.only {gh : Nat → Loc} {m : Lock} {u : Nat}
    (h : Tied s.locks Loc.holds gh) (ht : (gh t).holds m)
    (hu : (gh u).holds m) : u = t := by
  have htu := ((h m u).mpr hu).symm.trans ((h m t).mpr ht)
  exact Option.some.inj htu

end Steps

-- ==== the places

/-- What a thread's places stand inside of. -/
structure Loc.Nested (l : Loc) : Prop where
  hand : l.hand ≠ none → l.chain = true
  chain : l.chain = true → l.ready = true
  ready : l.ready = true → l.sect = true
  sect : l.sect = true → l.pass = true
  pass : l.pass = true → l.past = true
  ensured : l.ensured = true → l.transport = true
  stage : l.stage ≠ .none → l.transport = true ∧ l.ensured = false

theorem nested_idle : Loc.idle.Nested :=
  ⟨fun h => absurd rfl h, nofun, nofun, nofun, nofun, nofun, fun h => absurd rfl h⟩

theorem nested_started (job : Job) : (Loc.started job).Nested := by
  cases job <;> exact ⟨fun h => absurd rfl h, nofun, nofun, nofun, nofun, nofun,
      fun h => absurd rfl h⟩

theorem Loc.Nested.next {l : Loc} (h : l.Nested) (hallow : allow l o) : (next l o a).Nested := by
  cases o with
  | begin => exact nested_started a
  | finish => exact nested_idle
  | lock k =>
    cases k with
    | transport =>
      exact { h with
        ensured := fun _ => rfl
        stage := fun hst => absurd hallow.1.stage hst }
    | delivery =>
      exact { h with sect := fun _ => rfl, pass := fun _ => hallow.1 }
  | unlock k =>
    cases k with
    | transport =>
      exact { h with
        ensured := nofun, stage := fun hst => absurd hallow.1.stage hst }
    | delivery =>
      exact { h with
        sect := fun hs => (nomatch hallow.1.sect.symm.trans hs)
        pass := nofun }
  | isPaused =>
    cases a with
    | true => exact { h with }
    | false => exact { h with pass := fun _ => rfl }
  | returned =>
    exact { h with pass := fun hp => (nomatch hallow.1.symm.trans hp) }
  | enter =>
    cases a with
    | true =>
      exact { h with ready := fun _ => rfl, sect := fun _ => hallow.1.pass }
    | false => exact { h with }
  | leave =>
    exact { h with
      chain := fun hc => (nomatch hallow.chain.symm.trans hc), ready := nofun
      sect := nofun }
  | handler =>
    cases a with
    | true =>
      exact { h with
        chain := fun _ => rfl, ready := fun _ => hallow.1.sect }
    | false => exact { h with }
  | popChain =>
    cases a with
    | none => exact { h with }
    | some chain =>
      exact { h with hand := fun _ => rfl, chain := fun _ => hallow.2.2 }
  | unpopChain chain =>
    exact { h with hand := fun hh => absurd hallow.hand hh, chain := nofun }
  | popRx =>
    cases a with
    | none => exact { h with }
    | some p => exact { h with hand := fun _ => hallow.1.chain }
  | requeueRxFront p =>
    obtain ⟨hd, hsect, -⟩ := hallow
    exact { h with hand := fun _ => hsect.chain }
  | publish head written p =>
    exact { h with hand := fun hh => absurd rfl hh, chain := nofun }
  | ensureHandler =>
    exact { h with
      ensured := fun _ => hallow.2
      stage := fun hst => absurd hallow.1.stage hst }
  | close => exact { h with stage := fun _ => hallow.2 }
  | drain =>
    have hst : l.stage = .closed := hallow
    exact { h with stage := fun _ => h.stage (by simp [hst]) }
  | dropHandler =>
    have hst : l.stage = .drained := hallow
    exact { h with stage := fun _ => h.stage (by simp [hst]) }
  | clearPending =>
    have hst : l.stage = .dropped := hallow
    exact { h with stage := fun _ => h.stage (by simp [hst]) }
  | reopen => exact { h with stage := fun hst => absurd rfl hst }
  | rxIsEmpty => cases a <;> exact { h with }
  | read id => cases a <;> exact { h with }
  | spawn key id => cases a <;> exact { h with }
  | acceptRequest hdr => cases a <;> exact { h with }
  | reserveHostConnect port => cases a <;> exact { h with }
  | _ => exact { h with }

end Rshyve.Virtio.Vsock
