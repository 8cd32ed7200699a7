/-
# vsock packets and connections

`vmm-virtio/src/vsock/packet.rs` and `conn.rs`: the packet header, the two
ports that name a connection, and one connection's state and credit. The
operation and the flags of a header are the guest's words, so they stay
numbers. The counters are 32 bits wide and wrap.
-/
import Rshyve.Data.Bytes

namespace Rshyve.Virtio.Vsock

-- ==== packets

/-- Wire size of the header. -/
def hdrSize : Nat := 44

def cidHost : BitVec 64 := 2

def typeStream : BitVec 16 := 1

def opRequest : BitVec 16 := 1
def opResponse : BitVec 16 := 2
def opRst : BitVec 16 := 3
def opShutdown : BitVec 16 := 4
def opRw : BitVec 16 := 5

def shutdownRcv : BitVec 32 := 1
def shutdownSend : BitVec 32 := 2

structure VsockHdr where
  srcCid : BitVec 64
  dstCid : BitVec 64
  srcPort : BitVec 32
  dstPort : BitVec 32
  len : BitVec 32
  type : BitVec 16
  op : BitVec 16
  flags : BitVec 32
  bufAlloc : BitVec 32
  fwdCnt : BitVec 32
  deriving DecidableEq, Repr

/-- The two ports of a connection, from the host's point of view. -/
structure ConnKey where
  guestPort : BitVec 32
  hostPort : BitVec 32
  deriving DecidableEq, Repr

namespace VsockHdr

def toBytes (h : VsockHdr) : List UInt8 :=
  Bytes.le 8 h.srcCid.toNat ++ Bytes.le 8 h.dstCid.toNat ++
    Bytes.le 4 h.srcPort.toNat ++ Bytes.le 4 h.dstPort.toNat ++
    Bytes.le 4 h.len.toNat ++ Bytes.le 2 h.type.toNat ++
    Bytes.le 2 h.op.toNat ++ Bytes.le 4 h.flags.toNat ++
    Bytes.le 4 h.bufAlloc.toNat ++ Bytes.le 4 h.fwdCnt.toNat

@[simp] theorem toBytes_length (h : VsockHdr) :
    h.toBytes.length = hdrSize := by
  simp [toBytes, hdrSize]

/-- A reply to the sender, always from the host. -/
def reply (h : VsockHdr) (op : BitVec 16) : VsockHdr :=
  ⟨cidHost, h.srcCid, h.dstPort, h.srcPort, 0, typeStream, op, 0, 0, 0⟩

/-- The connection a packet of the guest names. -/
def guestKey (h : VsockHdr) : ConnKey := ⟨h.srcPort, h.dstPort⟩

/-- The connection a packet to the guest names. -/
def hostKey (h : VsockHdr) : ConnKey := ⟨h.dstPort, h.srcPort⟩

end VsockHdr

-- ==== connections

inductive ConnState where
  | connecting
  | established
  | localSendClosed
  | peerSendClosed
  | closed
  deriving DecidableEq, Repr

structure VsockConn where
  state : ConnState
  peerBufAlloc : BitVec 32
  peerFwdCnt : BitVec 32
  txCnt : BitVec 32
  bufAlloc : BitVec 32
  fwdCnt : BitVec 32
  deriving DecidableEq, Repr

/-- The receive window advertised to the guest. -/
def defaultBufAlloc : BitVec 32 := 256 * 1024

namespace VsockConn

def new (state : ConnState) : VsockConn :=
  ⟨state, 0, 0, 0, defaultBufAlloc, 0⟩

def isClosed (c : VsockConn) : Bool := c.state == .closed

/-- Bytes the host may still send: the subtraction in flight wraps, the one
from the window saturates. -/
def peerCredit (c : VsockConn) : Nat :=
  c.peerBufAlloc.toNat - (c.txCnt - c.peerFwdCnt).toNat

def absorbCredit (c : VsockConn) (h : VsockHdr) : VsockConn :=
  { c with peerBufAlloc := h.bufAlloc, peerFwdCnt := h.fwdCnt }

def recordSent (c : VsockConn) (n : Nat) : VsockConn :=
  { c with txCnt := c.txCnt + BitVec.ofNat 32 n }

def recordForwarded (c : VsockConn) (n : Nat) : VsockConn :=
  { c with fwdCnt := c.fwdCnt + BitVec.ofNat 32 n }

/-- The state after a packet of the guest, and the reply it is owed. -/
def onPacket (c : VsockConn) (h : VsockHdr) : VsockConn × Option (BitVec 16) :=
  let c := c.absorbCredit h
  if h.type ≠ typeStream then ({ c with
            state := .closed }, some opRst)
  else if h.op = opResponse then
    if c.state = .connecting then ({ c with
    state := .established }, none)
    else ({ c with state := .closed }, some opRst)
  else if h.op = opRst then ({ c with state := .closed }, none)
  else if h.op = opShutdown then
    let both := shutdownRcv ||| shutdownSend
    if h.flags &&& both = both then ({ c with state := .closed }, some opRst)
    else
      let c :=
        if h.flags &&& shutdownSend ≠ 0 then
          { c with
            state :=
              if c.state = .localSendClosed then .closed
              else .peerSendClosed }
        else c
      (c, if c.state = .closed then some opRst else none)
  else (c, none)

def closeLocalSend (c : VsockConn) : VsockConn :=
  { c with
    state :=
      match c.state with
      | .connecting | .peerSendClosed | .closed => .closed
      | _ => .localSendClosed }

def acceptsGuestData (c : VsockConn) : Bool :=
  c.state == .established || c.state == .localSendClosed

end VsockConn

end Rshyve.Virtio.Vsock
