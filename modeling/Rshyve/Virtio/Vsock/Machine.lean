/-
# The vsock device as a machine

The meaning of the steps of `Vsock.Device`. A write to guest memory goes
through where the memory map says so (`lands`). A host peer sends bytes on
its socket whenever it likes (`Move`), and a read takes some of those not
yet read.

Admission to the receive ring is `open`; `sect` is the delivery inside,
which the pass lock keeps to one. Taking the ring back waits for it.

# History

`sent` are the bytes a connection's peer has sent, `buf` those its reader
has read and the mux has not yet taken. `accepted` is what the mux has taken
and `published` what chains have carried to the guest, both in order and with
the connection a byte is from. `delivered` is what the guest has got on a
connection: the payload of every chain published for its port pair since the
connection was opened and until another one is (`latest`). `hand` is the
packet taken off the queue and not yet published. `calls` are the threads
with a delivery outstanding: they have queued something or resumed the
device, and their `deliver_rx` has not returned. `past` are the threads
inside `deliver_rx` past its test of the pause, `vcpus` those that run a
callback of the transport. No step reads any of them, `buf`
apart, which is the reader's own buffer.
-/
import Rshyve.Conc.Pool
import Rshyve.Conc.Locks
import Rshyve.Mem.Typed
import Rshyve.Virtio.Vsock.Device

namespace Rshyve.Virtio.Vsock

open Conc Function
open Rshyve.Mem (AddressSpace lands)

-- ==== the state

/-- A connection in the table, with its number. -/
structure Entry where
  conn : VsockConn
  id : Nat
  deriving DecidableEq, Repr

structure Shared where
  space : AddressSpace
  locks : Owners Lock
  paused : Bool
  -- the receive ring
  isOpen : Bool
  sect : Option Nat
  handler : Bool
  pending : List Chain
  -- the mux
  conns : ConnKey → Option Entry
  connCount : Nat
  rx : List RxPacket
  rxBytes : Nat
  nextHostPort : BitVec 32
  -- the sockets
  sockets : ConnKey → Option Nat
  spawned : List (ConnKey × Nat)
  unread : Nat → List UInt8
  nextId : Nat
  -- history
  sent : Nat → List UInt8
  buf : Nat → List UInt8
  accepted : List (Nat × UInt8)
  published : List (Nat × UInt8)
  delivered : Nat → List (Nat × UInt8)
  latest : ConnKey → Option Nat
  hand : Option RxPacket
  calls : List Nat
  past : List Nat
  vcpus : List Nat

/-- What the outside world decides about a step. -/
structure Choice where
  job : Job
  flag : Bool
  count : Nat
  chains : List Chain
  refused : List Nat
  packet : Option (VsockHdr × List UInt8)

instance : Inhabited Choice := ⟨⟨.kickRx, false, 0, [], [], none⟩⟩

/-- Host peers send. -/
inductive Move where
  | send (id : Nat) (bytes : List UInt8)

/-- `RX_BACKLOG_MAX`, `MAX_CONNS`, `RX_PACKETS_MAX`, `VSOCK_QUEUE_SIZE`,
`HOST_READ_CHUNK`. -/
def rxBacklogMax : Nat := 1024 * 1024
def maxConns : Nat := 1024
def rxPacketsMax : Nat := maxConns * 4
def queueSize : Nat := 256
def hostReadChunk : Nat := 64 * 1024

namespace Shared

-- ==== the mux

/-- Queue a packet for the guest, unless one of the caps is reached. -/
def pushRx (s : Shared) (p : RxPacket) : Bool × Shared :=
  if rxPacketsMax ≤ s.rx.length then (false, s)
  else if p.payload ≠ [] ∧ rxBacklogMax < s.rxBytes + p.payload.length then
    (false, s)
  else
    (true, { s with
      rx := s.rx ++ [p]
      rxBytes := s.rxBytes + p.payload.length })

/-- A payload byte by byte, with where it is from. -/
def tagged (p : RxPacket) : List (Nat × UInt8) :=
  p.payload.map fun b => (p.origin, b)

/-- Queue what the guest's credit and the backlog allow. -/
def queueHostData (guestCid : BitVec 64) (s : Shared) (key : ConnKey)
    (id : Nat) (data : List UInt8) : List UInt8 × Shared :=
  match s.conns key with
  | none => ([], { s with buf := update s.buf id [] })
  | some e =>
    let take := min e.conn.peerCredit data.length
    if take = 0 then (data, s)
    else
      let hdr := { hdrFor guestCid key opRw with
        len := BitVec.ofNat 32 take
        bufAlloc := e.conn.bufAlloc
        fwdCnt := e.conn.fwdCnt }
      let p : RxPacket := ⟨hdr, data.take take, id⟩
      match s.pushRx p with
      | (false, _) => (data, s)
      | (true, s) =>
        (data.drop take, { s with
          conns := update s.conns key (some { e with conn := e.conn.recordSent take })
          buf := update s.buf id (data.drop take)
          accepted := s.accepted ++ tagged p })

/-- Put a connection in the table under a number of its own. -/
def insert (s : Shared) (key : ConnKey) (conn : VsockConn) : Shared :=
  { s with
    conns := update s.conns key (some ⟨conn, s.nextId⟩)
    connCount := s.connCount + 1
    nextId := s.nextId + 1
    latest := update s.latest key (some s.nextId) }

def forget (s : Shared) (key : ConnKey) : Shared :=
  match s.conns key with
  | none => s
  | some _ =>
    { s with
      conns := update s.conns key none
      connCount := s.connCount - 1 }

/-- The first port from the counter on whose pair is free. -/
def reserveFrom (guestPort : BitVec 32) : Nat → Shared → Option (ConnKey × Nat) × Shared
  | 0, s => (none, s)
  | n + 1, s =>
    let key : ConnKey := ⟨guestPort, s.nextHostPort⟩
    let s := { s with nextHostPort := s.nextHostPort + 1 }
    match s.conns key with
    | some _ => reserveFrom guestPort n s
    | none => (some (key, s.nextId), s.insert key (.new .connecting))

def reserveHostConnect (s : Shared) (guestPort : BitVec 32) : Option (ConnKey × Nat) × Shared :=
  if maxConns ≤ s.connCount then (none, s)
  else reserveFrom guestPort (maxConns + 1) s

def acceptRequest (s : Shared) (hdr : VsockHdr) : Option Nat × Shared :=
  if (s.conns hdr.guestKey).isSome ∨ maxConns ≤ s.connCount then (none, s)
  else
    (some s.nextId, s.insert hdr.guestKey ((VsockConn.new .established).absorbCredit hdr))

def onPacket (s : Shared) (hdr : VsockHdr) (len : Nat) : Option PacketResult × Shared :=
  match s.conns hdr.guestKey with
  | none => (none, s)
  | some e =>
    let (conn, reply) := e.conn.onPacket hdr
    let conn' := if hdr.op = opRw then conn.recordForwarded len else conn
    (some ⟨reply, conn.isClosed, conn.acceptsGuestData⟩,
      { s with
        conns := update s.conns hdr.guestKey (some { e with conn := conn' }) })

def closeLocalSend (s : Shared) (key : ConnKey) : Option Bool × Shared :=
  match s.conns key with
  | none => (none, s)
  | some e =>
    let conn := e.conn.closeLocalSend
    (some conn.isClosed,
      { s with
        conns := update s.conns key (some { e with conn := conn }) })

-- ==== the queue's end

def popRx (s : Shared) : Option RxPacket × Shared :=
  match s.rx with
  | [] => (none, s)
  | p :: rest =>
    (some p, { s with
      rx := rest
      rxBytes := s.rxBytes - p.payload.length
      hand := some p })

/-- Put a packet, or the rest of one, back at the head of the queue. -/
def requeueRxFront (s : Shared) (p : RxPacket) : Shared :=
  { s with
    rx := p :: s.rx
    rxBytes := s.rxBytes + p.payload.length
    hand := s.hand.map fun h =>
      { h with payload := h.payload.take (h.payload.length - p.payload.length) } }

/-- The payload that is among the first `written` bytes of a packet. -/
def carried (p : RxPacket) (written : Nat) : List (Nat × UInt8) :=
  ((p.blob.take written).drop hdrSize).map fun b => (p.origin, b)

/-- A used entry for a chain: the guest gets what was written into it. -/
def publish (s : Shared) (written : Nat) : Option RxPacket → Shared
  | none => s
  | some p =>
    let got := carried p written
    { s with
      published := s.published ++ got
      delivered :=
        match s.latest p.hdr.hostKey with
        | none => s.delivered
        | some id =>
          update s.delivered id (s.delivered id ++ got)
      hand := none }

-- ==== the steps

/-- The delivery of what a thread has queued is outstanding. -/
def call (s : Shared) (t : Nat) : Shared :=
  { s with calls := t :: s.calls.filter (· != t) }

def begin (s : Shared) (t : Nat) : Job → Option (Job × Shared)
  | .reader key id =>
    if (key, id) ∈ s.spawned then
      some (.reader key id, { s with spawned := s.spawned.erase (key, id) })
    else none
  | .kickRx => some (.kickRx, { s with vcpus := t :: s.vcpus })
  | .kickTx => some (.kickTx, { s with vcpus := t :: s.vcpus })
  | .retire => some (.retire, { s with vcpus := t :: s.vcpus })
  | job => some (job, s)

/-- Read some of what the peer has sent. -/
def read (s : Shared) (c : Choice) (id : Nat) : ReadResult × Shared :=
  if 0 < c.count ∧ c.count ≤ (s.unread id).length ∧ c.count ≤ hostReadChunk then
    let bytes := (s.unread id).take c.count
    (.data bytes, { s with
      unread := update s.unread id ((s.unread id).drop c.count)
      buf := update s.buf id bytes })
  else (if c.flag then .again else .closed, s)

def withLocks (s : Shared) (o : Option (Owners Lock)) : Option (Unit × Shared) :=
  o.map fun locks => ((), { s with locks := locks })

def exec (guestCid : BitVec 64) (t : Nat) (c : Choice) : (o : Op) → Shared → Option (Ans o × Shared)
  | .begin, s => s.begin t c.job
  | .finish, s => some ((), { s with vcpus := s.vcpus.filter (· != t) })
  | .lock l, s => s.withLocks (s.locks.acquire t l)
  | .unlock l, s => s.withLocks (s.locks.release t l)
  | .pause, s => some ((), { s with paused := true })
  | .resume, s => some ((), { s with paused := false }.call t)
  | .isPaused, s =>
    some (s.paused, if s.paused then s else { s with past := t :: s.past })
  | .returned, s =>
    some ((), { s with
      calls := s.calls.filter (· != t)
      past := s.past.filter (· != t) })
  | .rxIsEmpty, s => some (s.rx.isEmpty, s)
  | .enter, s =>
    some (s.isOpen, if s.isOpen then { s with sect := some t } else s)
  | .leave, s => some ((), { s with sect := none })
  | .handler, s => some (s.handler, s)
  | .popChain, s =>
    match s.pending with
    | [] => some (none, s)
    | chain :: rest => some (some chain, { s with pending := rest })
  | .unpopChain chain, s =>
    some ((), { s with pending := chain :: s.pending })
  | .popRx, s => some s.popRx
  | .requeueRxFront p, s => some ((), s.requeueRxFront p)
  | .poke addr bytes, s => some (lands s.space addr bytes.length, s)
  | .publish _ written p, s => some ((), s.publish written p)
  | .ensureHandler, s => some ((), { s with handler := true })
  | .stash, s =>
    some (c.refused, { s with
      pending := s.pending ++ c.chains.take (queueSize - s.pending.length) }.call t)
  | .moreAvail, s | .hostWrite _, s | .reserveReader, s | .dial, s
  | .isShutdown, s => some (c.flag, s)
  | .close, s => some ((), { s with isOpen := false })
  | .drain, s => if s.sect = none then some ((), s) else none
  | .dropHandler, s => some ((), { s with handler := false })
  | .clearPending, s => some ((), { s with pending := [] })
  | .reopen, s => some ((), { s with isOpen := true })
  | .queueHostData key id data, s =>
    let (rest, s) := s.queueHostData guestCid key id data
    some (rest, s.call t)
  | .closeLocalSend key, s => some (s.closeLocalSend key)
  | .pushRx hdr, s =>
    let (went, s) := s.pushRx (.control hdr)
    some (went, s.call t)
  | .forget key, s => some ((), s.forget key)
  | .containsKey key, s => some ((s.conns key).isSome, s)
  | .ourCredit key, s =>
    some ((s.conns key).map fun e => (e.conn.bufAlloc, e.conn.fwdCnt), s)
  | .reserveHostConnect port, s => some (s.reserveHostConnect port)
  | .acceptRequest hdr, s => some (s.acceptRequest hdr)
  | .onPacket hdr len, s => some (s.onPacket hdr len)
  | .registerSocket key id, s =>
    some ((), { s with sockets := update s.sockets key (some id) })
  | .dropSocket key, s =>
    some ((), { s with sockets := update s.sockets key none })
  | .releaseSocket key id, s =>
    if s.sockets key = some id then
      some (true, { s with sockets := update s.sockets key none })
    else some (false, s)
  | .socketOf key, s => some (s.sockets key, s)
  | .spawn key id, s =>
    some (c.flag, if c.flag then { s with spawned := s.spawned ++ [(key, id)] } else s)
  | .read id, s => some (s.read c id)
  | .nextPacket, s => some (c.packet, s)
  | .pushUsed, s => some ((), s)

def move : Move → Shared → Shared
  | .send id bytes, s =>
    { s with
      sent := update s.sent id (s.sent id ++ bytes)
      unread := update s.unread id (s.unread id ++ bytes) }

end Shared

/-- Taking the ring back waits for the delivery inside. -/
theorem drain_cases {guestCid : BitVec 64} {s s' : Shared} {t : Nat} {c : Choice} {a : Unit}
    (hex : s.exec guestCid t c .drain = some (a, s')) :
    s.sect = none ∧ s' = s := by
  simp only [Shared.exec] at hex
  split at hex
  next h =>
    cases hex
    exact ⟨h, rfl⟩
  · cases hex

/-- The device, its host peers and its guest. -/
def machine (guestCid : BitVec 64) : System Op Ans Shared Choice Move where
  exec := Shared.exec guestCid
  env m s := some { s with sh := s.sh.move m }

/-- A device over a memory map, with no connection and no ring yet. -/
def start (guestCid : BitVec 64) (space : AddressSpace) : Pool Op Ans Shared where
  sh :=
    { space
      locks := fun _ => none
      paused := false
      isOpen := true
      sect := none
      handler := false
      pending := []
      conns := fun _ => none
      connCount := 0
      rx := []
      rxBytes := 0
      nextHostPort := 49152
      sockets := fun _ => none
      spawned := []
      unread := fun _ => []
      nextId := 0
      sent := fun _ => []
      buf := fun _ => []
      accepted := []
      published := []
      delivered := fun _ => []
      latest := fun _ => none
      hand := none
      calls := []
      past := []
      vcpus := [] }
  thr := fun _ => thread guestCid

-- ==== the conditions

/-- No payload for a port pair is queued, or taken off the queue and not yet
published. -/
def Shared.fresh (s : Shared) (key : ConnKey) : Bool :=
  (s.hand.toList ++ s.rx).all fun p =>
    p.payload.isEmpty || p.hdr.hostKey != key

/-- A connection is opened under a port pair only when no payload of an
earlier one is left; a reader hands bytes over only while no other
connection has its port pair; and what the device writes into is writable
guest memory. -/
def keepsApart : Op → Shared → Bool
  | .acceptRequest hdr, s =>
    (s.acceptRequest hdr).1.isNone || s.fresh hdr.guestKey
  | .reserveHostConnect port, s =>
    (s.reserveHostConnect port).1.all fun r => s.fresh r.1
  | .queueHostData key id _, s => (s.conns key).all fun e => e.id == id
  | .poke addr bytes, s => lands s.space addr bytes.length
  | _, _ => true

/-- The next operation of every thread that moves meets a condition. -/
def everyStep (ok : Op → Shared → Bool) : Act Choice Move → Pool Op Ans Shared → Prop
  | .run t _, s => (s.thr t).head?.all (fun o => ok o s.sh) = true
  | .env _, _ => True

instance (ok : Op → Shared → Bool) :
    ∀ a s, Decidable (everyStep ok a s)
  | .run _ _, _ => inferInstanceAs (Decidable (_ = _))
  | .env _, _ => isTrue trivial

-- ==== small runs

/-- One megabyte of RAM. -/
def oneRam : Mem.AddressSpace where
  regions :=
    [⟨0, 0x100000, .ram, ⟨0, ⟨1, 0x100000, .rw⟩, .rwx⟩, ⟨2, 0x100000, .rw⟩⟩]

/-- A guest header from port 10 to host port 5000, with a window of 100. -/
def guestHdr (op : BitVec 16) : VsockHdr :=
  ⟨3, cidHost, 10, 5000, 0, typeStream, op, 0, 100, 0⟩

/-- `n` steps of thread `t`, starting on `job` where a job starts. -/
def steps (t n : Nat) (c : Choice) : List (Act Choice Move) :=
  List.replicate n (.run t c)

def onJob (job : Job) : Choice := { (default : Choice) with job := job }

/-- The guest's next packet, and every host call going well. -/
def onHdr (op : BitVec 16) : Choice :=
  { (default : Choice) with packet := some (guestHdr op, []), flag := true }

/-- The guest opens a connection, its host peer sends three bytes, and the
reader hands them over. -/
def opened : List (Act Choice Move) :=
  steps 0 4 (onJob .kickTx) ++ steps 0 11 (onHdr opRequest) ++
    steps 0 13 default ++ [.env (.send 0 [1, 2, 3])] ++
    steps 1 1 default ++ steps 1 2 (onJob (.reader ⟨10, 5000⟩ 0)) ++
    steps 1 14 { (default : Choice) with count := 3 }

end Rshyve.Virtio.Vsock
