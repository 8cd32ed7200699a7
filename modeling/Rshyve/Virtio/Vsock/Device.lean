/-
# The vsock device

The programs of `vmm-virtio/src/vsock/mux.rs` and `vsock/device/{rx,tx,
sockets,listener,halt}.rs` over atomic steps: one critical section of the
connection table, the receive queue, the stash of posted chains or the socket
table, one access to guest memory, one socket call.

# Who runs what

- A reader thread serves one connection from its host socket to the queue
  (`readerLoop`). It is spawned for a connection the guest opens, and is the
  accepting thread itself for one a host peer opens (`hostConnect`).
- A vCPU serves the guest's kicks (`kickRx`, `kickTx`) and takes the receive
  ring back on a reset or when the driver programs it again (`retire`), each
  with the transport's lock held. A reset runs without that lock, but its
  latch keeps every kick out.
- The lifecycle calls are `pause` and `resume`.

# What stands for what

- A connection has a number besides its port pair, new for each opening. It
  is the identity of its host socket, which the source compares with
  `Arc::ptr_eq`. `RxPacket.origin` is the number of the connection whose peer
  sent the payload. No branch depends on it.
- A guest packet, a posted chain and what a chain's descriptors say are the
  guest's and arbitrary. The caps on thread counts, the control sessions and
  the interrupt a completion raises are left out.
-/
import Rshyve.Conc.Proc
import Rshyve.Virtio.Queue
import Rshyve.Virtio.Vsock.Packet

namespace Rshyve.Virtio.Vsock

open Conc

-- ==== the steps

/-- A packet waiting for a posted chain. -/
structure RxPacket where
  hdr : VsockHdr
  payload : List UInt8
  origin : Nat
  deriving DecidableEq, Repr

/-- A header-only packet. -/
def RxPacket.control (hdr : VsockHdr) : RxPacket := ⟨hdr, [], 0⟩

/-- A posted chain: its head and its buffers. -/
structure Chain where
  head : Nat
  bufs : List ChainBuf
  deriving DecidableEq, Repr

inductive Lock where
  | transport
  | delivery
  deriving DecidableEq, Repr

/-- What a thread is started for. -/
inductive Job where
  | reader (key : ConnKey) (id : Nat)
  | hostConnect (port : BitVec 32)
  | kickRx
  | kickTx
  | retire
  | pause
  | resume
  deriving DecidableEq, Repr

/-- The outcome of a read from a host socket. -/
inductive ReadResult where
  | data (bytes : List UInt8)
  | again
  | closed
  deriving DecidableEq, Repr

/-- What `on_packet` makes of a packet for a connection in the table. -/
structure PacketResult where
  reply : Option (BitVec 16)
  closed : Bool
  accepts : Bool
  deriving DecidableEq, Repr

inductive Op where
  | begin
  | finish
  | lock (l : Lock)
  | unlock (l : Lock)
  -- the quiesce gate
  | pause
  | resume
  | isPaused
  /-- `deliver_rx` returns -/
  | returned
  -- the receive ring
  | rxIsEmpty
  | enter
  | leave
  | handler
  | popChain
  | unpopChain (c : Chain)
  | popRx
  | requeueRxFront (p : RxPacket)
  | poke (addr : Nat) (bytes : List UInt8)
  | publish (head written : Nat) (p : Option RxPacket)
  | ensureHandler
  | stash
  | moreAvail
  -- taking the ring back
  | close
  | drain
  | dropHandler
  | clearPending
  | reopen
  -- the mux
  | queueHostData (key : ConnKey) (id : Nat) (data : List UInt8)
  | closeLocalSend (key : ConnKey)
  | pushRx (hdr : VsockHdr)
  | forget (key : ConnKey)
  | containsKey (key : ConnKey)
  | ourCredit (key : ConnKey)
  | reserveHostConnect (port : BitVec 32)
  | acceptRequest (hdr : VsockHdr)
  | onPacket (hdr : VsockHdr) (len : Nat)
  -- the sockets
  | registerSocket (key : ConnKey) (id : Nat)
  | dropSocket (key : ConnKey)
  | releaseSocket (key : ConnKey) (id : Nat)
  | socketOf (key : ConnKey)
  | hostWrite (id : Nat)
  | reserveReader
  | dial
  | spawn (key : ConnKey) (id : Nat)
  | isShutdown
  | read (id : Nat)
  -- the transmit ring
  | nextPacket
  | pushUsed
  deriving DecidableEq, Repr

abbrev Ans : Op → Type
  | .begin => Job
  | .isPaused | .rxIsEmpty | .enter | .handler | .poke .. | .pushRx _
  | .containsKey _ | .releaseSocket .. | .hostWrite _ | .reserveReader
  | .dial | .spawn .. | .isShutdown | .moreAvail => Bool
  | .popChain => Option Chain
  | .popRx => Option RxPacket
  | .stash => List Nat
  | .queueHostData .. => List UInt8
  | .closeLocalSend _ => Option Bool
  | .ourCredit _ => Option (BitVec 32 × BitVec 32)
  | .reserveHostConnect _ => Option (ConnKey × Nat)
  | .acceptRequest _ | .socketOf _ => Option Nat
  | .onPacket .. => Option PacketResult
  | .read _ => ReadResult
  | .nextPacket => Option (VsockHdr × List UInt8)
  | _ => Unit

abbrev Prog := Proc Op Ans

abbrev step (o : Op) : Prog (Ans o) := Proc.call o

-- ==== host to guest

/-- The bytes of a packet as the guest gets them. -/
def RxPacket.blob (p : RxPacket) : List UInt8 := p.hdr.toBytes ++ p.payload

/-- The same packet with another payload. -/
def RxPacket.withPayload (p : RxPacket) (payload : List UInt8) : RxPacket :=
  { p with
    hdr := { p.hdr with len := BitVec.ofNat 32 payload.length }
    payload := payload }

/-- The room in a chain's device-writable buffers. -/
def capacity (bufs : List ChainBuf) : Nat :=
  ((bufs.filter ChainBuf.isWritable).map ChainBuf.len).sum

/-- Copy `blob` into the writable buffers, from `written` on. A buffer that
cannot be written ends it. -/
def writeBlob (blob : List UInt8) : List ChainBuf → Nat → Prog Nat
  | [], written => pure written
  | .readable .. :: bufs, written => writeBlob blob bufs written
  | .writable addr len :: bufs, written => do
    let remaining := blob.length - written
    if remaining = 0 then pure written
    else
      let want := min len remaining
      if ← step (.poke addr ((blob.drop written).take want)) then
        writeBlob blob bufs (written + want)
      else pure written

/-- The part of a packet that has room in `room` bytes; the rest goes back
to the front of the queue. -/
def splitPacket (room : Nat) (pkt : RxPacket) : Prog RxPacket := do
  if room < pkt.payload.length then
    step (.requeueRxFront (pkt.withPayload (pkt.payload.drop room)))
    pure (pkt.withPayload (pkt.payload.take room))
  else pure (pkt.withPayload pkt.payload)

/-- Write one packet into a chain and publish the chain. -/
def writePacket (chain : Chain) (pkt : RxPacket) : Prog Unit := do
  if capacity chain.bufs < hdrSize then
    step (.requeueRxFront pkt)
    step (.publish chain.head 0 none)
  else
    let pkt ← splitPacket (capacity chain.bufs - hdrSize) pkt
    let written ← writeBlob pkt.blob chain.bufs 0
    step (.publish chain.head written (some pkt))

/-- One round of `pair_rx`: false when it is over. -/
def pairOne : Prog Bool := do
  if ← step .rxIsEmpty then pure false
  else if ← step .enter then
    if ← step .handler then
      match ← step .popChain with
      | none =>
        step .leave
        pure false
      | some chain =>
        match ← step .popRx with
        | none =>
          step (.unpopChain chain)
          step .leave
          pure false
        | some pkt =>
          writePacket chain pkt
          step .leave
          pure true
    else
      step .leave
      pure false
  else pure false

/-- Pair queued packets with posted chains, one pass at a time. -/
def pairRx : Prog Unit := do
  step (.lock .delivery)
  Proc.loop (fun _ : Unit => do
    if ← pairOne then pure (.inl ()) else pure (.inr ())) ()
  step (.unlock .delivery)

/-- A paused device must not touch guest memory. -/
def deliverRx : Prog Unit := do
  if ← step .isPaused then step .returned
  else
    pairRx
    step .returned

/-- Take posted chains off the ring and hold them. A chain that cannot be
read goes back empty. -/
def stashRx : Prog Unit := do
  step .ensureHandler
  Proc.loop (fun _ : Unit => do
    let refused ← step .stash
    refused.forM fun head => step (.publish head 0 none)
    if ← step .moreAvail then pure (.inl ()) else pure (.inr ())) ()
  deliverRx

/-- `retire_rings`: end the generation, wait for the delivery inside it,
drop what names the ring. -/
def retireRings : Prog Unit := do
  step .close
  step .drain
  step .dropHandler
  step .clearPending
  step .reopen

-- ==== the mux

section Mux

variable (guestCid : BitVec 64)

/-- A header from the host side of `key` to the guest. -/
def hdrFor (key : ConnKey) (op : BitVec 16) : VsockHdr :=
  ⟨cidHost, guestCid, key.hostPort, key.guestPort, 0, typeStream, op, 0, 0, 0⟩

/-- `stamp_credit`: the window of the connection, where there is one. -/
def stampCredit (key : ConnKey) (hdr : VsockHdr) : Prog VsockHdr := do
  match ← step (.ourCredit key) with
  | none => pure hdr
  | some (bufAlloc, fwdCnt) =>
    pure { hdr with bufAlloc := bufAlloc, fwdCnt := fwdCnt }

def announceHostConnect (key : ConnKey) : Prog Unit := do
  let hdr ← stampCredit key (hdrFor guestCid key opRequest)
  discard <| step (.pushRx hdr)

/-- Tell the guest that the host end has gone. -/
def queueHostClose (key : ConnKey) : Prog Unit := do
  match ← step (.closeLocalSend key) with
  | none => pure ()
  | some closed =>
    discard <| step (.pushRx { hdrFor guestCid key opShutdown with
      flags := shutdownRcv ||| shutdownSend })
    if closed then step (.forget key)

def acceptGuestConnect (key : ConnKey) : Prog Unit := do
  if ← step (.containsKey key) then
    let hdr ← stampCredit key (hdrFor guestCid key opResponse)
    discard <| step (.pushRx hdr)

def refuseGuestConnect (key : ConnKey) : Prog Unit := do
  step (.forget key)
  discard <| step (.pushRx (hdrFor guestCid key opRst))

/-- What the device does with a packet of the guest. -/
inductive GuestAction where
  | none
  | deliver (key : ConnKey)
  | close (key : ConnKey)
  | connect (key : ConnKey) (id : Nat)

def onGuestPacket (hdr : VsockHdr) (payload : List UInt8) : Prog GuestAction := do
  if hdr.dstCid ≠ cidHost then
    discard <| step (.pushRx (hdr.reply opRst))
    pure .none
  else if hdr.op = opRequest then
    match ← step (.acceptRequest hdr) with
    | none =>
      discard <| step (.pushRx (hdr.reply opRst))
      pure .none
    | some id => pure (.connect hdr.guestKey id)
  else
    match ← step (.onPacket hdr payload.length) with
    | none =>
      if hdr.op ≠ opRst then
        discard <| step (.pushRx (hdr.reply opRst))
        pure .none
      else pure .none
    | some r => do
      (match r.reply with
        | none => pure ()
        | some op => discard <| step (.pushRx (hdr.reply op)))
      if r.closed then
        step (.forget hdr.guestKey)
        pure (.close hdr.guestKey)
      else if hdr.op = opRw ∧ r.accepts = true ∧ payload ≠ [] then
        pure (.deliver hdr.guestKey)
      else pure .none

-- ==== the sockets

/-- Write payload to the host socket of a connection. -/
def writeHost (key : ConnKey) : Prog Unit := do
  match ← step (.socketOf key) with
  | none =>
    queueHostClose guestCid key
    deliverRx
  | some id =>
    if ← step (.hostWrite id) then pure ()
    else if ← step (.releaseSocket key id) then
      queueHostClose guestCid key
      deliverRx
    else pure ()

/-- A connection the guest opened: dial the host port and start a reader. -/
def connectOut (key : ConnKey) (id : Nat) : Prog Unit := do
  if ← step .reserveReader then
    if ← step .dial then
      step (.registerSocket key id)
      acceptGuestConnect guestCid key
      if ← step (.spawn key id) then pure ()
      else
        discard <| step (.releaseSocket key id)
        refuseGuestConnect guestCid key
    else refuseGuestConnect guestCid key
  else refuseGuestConnect guestCid key

def handleTxChain (hdr : VsockHdr) (payload : List UInt8) : Prog Unit := do
  match ← onGuestPacket hdr payload with
  | .none => pure ()
  | .deliver key => writeHost guestCid key
  | .close key => step (.dropSocket key)
  | .connect key id => connectOut guestCid key id

/-- Take guest packets off the transmit ring, then deliver the replies. -/
def drainTx : Prog Unit := do
  let used ← Proc.loop (fun used : Bool => do
    match ← step .nextPacket with
    | none => pure (.inr used)
    | some (hdr, payload) =>
      handleTxChain guestCid hdr payload
      step .pushUsed
      pure (.inl true)) false
  if used then deliverRx

-- ==== the readers

/-- Offer what was read until the mux has taken it all: false when the
device shuts down meanwhile. -/
def feed (key : ConnKey) (id : Nat) (data : List UInt8) : Prog Bool :=
  Proc.loop (fun data : List UInt8 => do
    let data ← step (.queueHostData key id data)
    deliverRx
    if data = [] then pure (.inr true)
    else if ← step .isShutdown then pure (.inr false)
    else pure (.inl data)) data

/-- Read from a connection's host socket until it closes, and speak for the
connection at the end only if the table still holds this socket. -/
def readerLoop (key : ConnKey) (id : Nat) : Prog Unit := do
  let ended ← Proc.loop (fun _ : Unit => do
    if ← step .isShutdown then pure (.inr true)
    else
      match ← step (.read id) with
      | .closed => pure (.inr true)
      | .again => pure (.inl ())
      | .data bytes =>
        if ← feed key id bytes then pure (.inl ()) else pure (.inr false)) ()
  if ended then
    if ← step (.releaseSocket key id) then
      queueHostClose guestCid key
      deliverRx

/-- Join a host peer to a guest port. The OK line goes out before the guest
hears of the connection. -/
def startHostConnection (port : BitVec 32) : Prog Unit := do
  match ← step (.reserveHostConnect port) with
  | none => pure ()
  | some (key, id) =>
    if ← step (.hostWrite id) then
      step (.registerSocket key id)
      announceHostConnect guestCid key
      deliverRx
      readerLoop guestCid key id
    else step (.forget key)

-- ==== the threads

/-- A callback of the transport, on a vCPU. -/
def underTransport (p : Prog Unit) : Prog Unit := do
  step (.lock .transport)
  p
  step (.unlock .transport)

def run : Job → Prog Unit
  | .reader key id => readerLoop guestCid key id
  | .hostConnect port => startHostConnection guestCid port
  | .kickRx => underTransport stashRx
  | .kickTx => underTransport (drainTx guestCid)
  | .retire => underTransport retireRings
  | .pause => step .pause
  | .resume => do
    step .resume
    deliverRx

/-- A thread: one job after the other. -/
def thread : Prog Unit :=
  Proc.loop (fun _ : Unit => do
    let job ← step .begin
    run guestCid job
    step .finish
    pure (.inl ())) ()

end Mux

end Rshyve.Virtio.Vsock
