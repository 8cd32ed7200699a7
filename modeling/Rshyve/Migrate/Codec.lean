/-
# The migration wire format

`vmm-migrate/src/{codec,limits,protocol,wire}.rs`: the messages both ends
exchange, their frames, and the expectations both ends share. A frame is
the payload followed by one tag byte.

# What is outside

Three libraries the program calls are not part of it, and stand here as
parameters (`Outside`): the RON text codec, zstd, and the standard
library's `escape_debug`. A codec takes a value to bytes and bytes back to a
value; each side can fail, and no law is assumed here. A result that needs
one states it.
-/
import Rshyve.Data.Bytes
import Rshyve.Mem.PhysMap

namespace Rshyve.Migrate

open Mem (pageSize hex)

-- ==== limits, protocol

/-- Protocol identifier for the RON migration format (`PROTOCOL_RON`). -/
def protocolRon : String := "vmm-migrate-ron/2"

def maxPagesPerBatch : Nat := 256
def maxBatchRawBytes : Nat := maxPagesPerBatch * pageSize
def maxBatchCompressedBytes : Nat :=
  maxBatchRawBytes + maxBatchRawBytes / 8 + 4096
def maxSparseGpas : Nat := maxPagesPerBatch

/-- Pages per `PageBatch` message on the source. -/
def batchSize : Nat := 64

/-- `PageBatch` flag: the data is zstd-compressed. -/
def pageBatchFlagZstd : Nat := 1

/-- `flags & !PAGE_BATCH_FLAG_ZSTD != 0`, for a 32-bit `flags`. -/
def unknownFlags (flags : Nat) : Bool := flags / 2 != 0

/-- `flags & PAGE_BATCH_FLAG_ZSTD != 0`. -/
def isZstd (flags : Nat) : Bool := flags % 2 == 1

/-- Migration phases, in order. -/
inductive MigrationPhase where
  | sync
  | ramPushPrePause
  | pause
  | ramPushPostPause
  | timeData
  | deviceState
  | ramPull
  | finish
  | committed
  | error
  deriving DecidableEq, Repr

/-- The phase as the `u8` the source casts it to. -/
def MigrationPhase.toNat : MigrationPhase → Nat
  | .sync => 0
  | .ramPushPrePause => 1
  | .pause => 2
  | .ramPushPostPause => 3
  | .timeData => 4
  | .deviceState => 5
  | .ramPull => 6
  | .finish => 7
  | .committed => 8
  | .error => 9

-- ==== errors

/-- Errors that can occur during migration. -/
inductive MigrateError where
  | protocolMismatch (text : String)
  | preambleMismatch (text : String)
  | unexpectedMessage (expected got : String)
  | codec (text : String)
  | webSocket (text : String)
  | io (text : String)
  | vmmData (text : String)
  | state (text : String)
  | remoteError (text : String)
  | phase (text : String)
  | committed (text : String)
  deriving DecidableEq, Repr

/-- The error's display text. -/
def MigrateError.text : MigrateError → String
  | .protocolMismatch t => "protocol negotiation failed: " ++ t
  | .preambleMismatch t => "preamble mismatch: " ++ t
  | .unexpectedMessage e g =>
    "unexpected message: expected " ++ e ++ ", got " ++ g
  | .codec t => "codec error: " ++ t
  | .webSocket t => "websocket error: " ++ t
  | .io t => "I/O error: " ++ t
  | .vmmData t => "vmm-data error: " ++ t
  | .state t => "state import/export error: " ++ t
  | .remoteError t => "remote error: " ++ t
  | .phase t => "phase error: " ++ t
  | .committed t => "handed over but unconfirmed: " ++ t

-- ==== payloads

/-- Protocol negotiation offer. -/
structure ProtocolOffer where
  protocols : List String
  deriving DecidableEq, Repr

/-- Protocol negotiation selection. -/
structure ProtocolSelect where
  protocol : String
  deriving DecidableEq, Repr

/-- A PCI address on the wire. -/
structure WireBdf where
  bus : Nat
  dev : Nat
  func : Nat
  deriving DecidableEq, Repr

def WireBdf.text (b : WireBdf) : String :=
  toString b.bus ++ "." ++ toString b.dev ++ "." ++ toString b.func

/-- One device of the source, as listed in the preamble. -/
structure DeviceIdentity where
  bdf : WireBdf
  kind : String
  deriving DecidableEq, Repr

def DeviceIdentity.text (d : DeviceIdentity) : String :=
  d.kind ++ "@" ++ d.bdf.text

/-- The CPUID leaf values that decide which instructions a guest can use. -/
structure CpuFeatures where
  leaf1Ecx : BitVec 32
  leaf1Edx : BitVec 32
  leaf7Ebx : BitVec 32
  leaf7Ecx : BitVec 32
  leaf7Edx : BitVec 32
  xcr0 : BitVec 32
  deriving DecidableEq, Repr

/-- Preamble exchanged during the Sync phase. -/
structure MigrationPreamble where
  numCpus : Nat
  memSize : Nat
  devices : List DeviceIdentity
  cpuFeatures : Option CpuFeatures
  deriving DecidableEq, Repr

/-- Time synchronization data for TSC and boot hrtime. -/
structure TimeData where
  vmmTime : List UInt8
  deriving DecidableEq, Repr

/-- One device's state in the payload, or `none` for a device with nothing
to carry. What is inside the state is the device's own business. -/
structure DeviceStatePayload where
  bdf : WireBdf
  state : Option (List UInt8)
  deriving DecidableEq, Repr

/-- Aggregated device state. The per-vCPU and system-device blobs are passed
to the kernel as they come and stand here as one blob. -/
structure DeviceState where
  kernel : List UInt8
  emulated : List DeviceStatePayload
  hyperv : Option (List UInt8)
  deriving DecidableEq, Repr

-- ==== outside

/-- Why a text did not decode: it is not UTF-8, or not the RON wanted. -/
inductive TextError where
  | utf8 (e : String)
  | ron (e : String)
  deriving DecidableEq, Repr

/-- A RON codec for one type. -/
structure Ron (α : Type) where
  ser : α → Except String (List UInt8)
  de : List UInt8 → Except TextError α

/-- Every value comes back from its text as it went in. -/
def Ron.Survives {α : Type} (r : Ron α) : Prop :=
  ∀ v, ∃ d, r.ser v = .ok d ∧ r.de d = .ok v

/-- The libraries the program calls. -/
structure Outside where
  offer : Ron ProtocolOffer
  select : Ron ProtocolSelect
  preamble : Ron MigrationPreamble
  time : Ron TimeData
  device : Ron DeviceState
  gpas : Ron (List (BitVec 64))
  error : Ron MigrateError
  /-- `zstd::bulk::compress`, or `none` when it fails -/
  compress : List UInt8 → Option (List UInt8)
  /-- `zstd::bulk::decompress` into at most the given number of bytes -/
  decompress : List UInt8 → Nat → Except String (List UInt8)
  escapeDebug : String → List Char
  /-- the `{:?}` rendering of a string -/
  debug : String → String

-- ==== messages

/-- Migration protocol message. -/
inductive Message where
  | okay
  | error (e : MigrateError)
  | serialized (data : List UInt8)
  | memFetch (gpas : List (BitVec 64))
  | memEnd
  | memDone
  | pageBatch (baseGpa pageCount flags : Nat) (data : List UInt8)
  | pauseSignal
  deriving DecidableEq, Repr

/-- The variant name, for an error about an unexpected message. -/
def Message.name : Message → String
  | .okay => "Okay"
  | .error _ => "Error"
  | .serialized _ => "Serialized"
  | .memFetch _ => "MemFetch"
  | .memEnd => "MemEnd"
  | .memDone => "MemDone"
  | .pageBatch .. => "PageBatch"
  | .pauseSignal => "PauseSignal"

/-- The tag byte of a message (`MessageType`). -/
def Message.tag : Message → UInt8
  | .okay => 0
  | .error _ => 1
  | .serialized _ => 2
  | .memFetch _ => 7
  | .memEnd => 9
  | .memDone => 10
  | .pageBatch .. => 11
  | .pauseSignal => 12

section

variable (out : Outside)

/-- The bytes before the tag. A text that does not serialize is replaced, as
the source replaces it. -/
def Message.payload : Message → List UInt8
  | .okay | .memEnd | .memDone | .pauseSignal => []
  | .error e =>
    match out.error.ser e with
    | .ok d => d
    | .error _ => "serialization_failed".toUTF8.toList
  | .serialized d => d
  | .memFetch gpas =>
    match out.gpas.ser gpas with
    | .ok d => d
    | .error _ => "[]".toUTF8.toList
  | .pageBatch base count flags data =>
    Bytes.le 8 base ++ Bytes.le 4 count ++ Bytes.le 4 flags ++ data

/-- Encode a message as `[payload...][tag]`. -/
def encode (m : Message) : List UInt8 := m.payload out ++ [m.tag]

/-- The error of a text that did not decode. -/
def textError (what : String) : TextError → MigrateError
  | .utf8 e => .codec ("invalid UTF-8 in " ++ what ++ ": " ++ e)
  | .ron e => .codec ("RON deserialize: " ++ e)

/-- The `MemFetch` payload: a RON list of at most `maxSparseGpas` addresses. -/
def decodeMemFetch (payload : List UInt8) : Except MigrateError Message :=
  match out.gpas.de payload with
  | .error e => .error (textError "MemFetch" e)
  | .ok gpas =>
    if gpas.length > maxSparseGpas then
      .error (.codec ("MemFetch has too many GPAs: " ++ toString gpas.length))
    else .ok (.memFetch gpas)

/-- The `PageBatch` payload: a 16-byte header and the data. -/
def decodePageBatch (payload : List UInt8) : Except MigrateError Message :=
  if payload.length < 16 then
    .error (.codec "PageBatch too short for header")
  else
    let base := Bytes.ofLe (payload.take 8)
    let count := Bytes.ofLe ((payload.drop 8).take 4)
    let flags := Bytes.ofLe ((payload.drop 12).take 4)
    if count = 0 ∨ count > maxPagesPerBatch then
      .error (.codec ("invalid PageBatch page count: " ++ toString count))
    else if unknownFlags flags then
      .error (.codec ("unknown PageBatch flags: " ++ hex flags))
    else .ok (.pageBatch base count flags (payload.drop 16))

/-- Decode a binary frame. -/
def decode (frame : List UInt8) : Except MigrateError Message :=
  match frame.getLast? with
  | none => .error (.codec "empty frame (no tag byte)")
  | some tag =>
    let payload := frame.dropLast
    match tag.toNat with
    | 0 => .ok .okay
    | 1 =>
      match out.error.de payload with
      | .error e => .error (textError "Error" e)
      | .ok e => .ok (.error e)
    | 2 => .ok (.serialized payload)
    | 7 => decodeMemFetch out payload
    | 9 => .ok .memEnd
    | 10 => .ok .memDone
    | 11 => decodePageBatch payload
    | 12 => .ok .pauseSignal
    | t => .error (.codec ("unknown message tag: " ++ toString t))

/-- Encode a serializable value as a `Serialized` message. -/
def serialized {α : Type} (ron : Ron α) (v : α) : Except MigrateError Message :=
  match ron.ser v with
  | .ok d => .ok (.serialized d)
  | .error e => .error (.codec ("RON serialize: " ++ e))

/-- Decode the payload of a `Serialized` message. -/
def deserialize {α : Type} (ron : Ron α) (data : List UInt8) : Except MigrateError α :=
  match ron.de data with
  | .ok v => .ok v
  | .error e => .error (textError "Serialized" e)

-- ==== expectations

/-- A peer-supplied string, bounded and escaped, safe to log. -/
def peerText (s : String) : String :=
  let esc := out.escapeDebug s
  let kept := String.ofList (esc.take 200)
  if kept.utf8ByteSize < esc.length then kept ++ "..." else kept

def unexpected (expected : String) (got : Message) : MigrateError :=
  .unexpectedMessage expected got.name

def expectOkay : Message → Except MigrateError Unit
  | .okay => .ok ()
  | .error e => .error (.remoteError (peerText out e.text))
  | other => .error (unexpected "Okay" other)

def expectSerialized : Message → Except MigrateError (List UInt8)
  | .serialized d => .ok d
  | .error e => .error (.remoteError (peerText out e.text))
  | other => .error (unexpected "Serialized" other)

def expectMemDone : Message → Except MigrateError Unit
  | .memDone => .ok ()
  | other => .error (unexpected "MemDone" other)

end

-- ==== frames decode as sent

variable {out : Outside}

theorem decode_encode (m : Message) : decode out (encode out m) = (match m with
      | .okay => .ok .okay
      | .error _ =>
        match out.error.de (m.payload out) with
        | .error e => .error (textError "Error" e)
        | .ok e => .ok (.error e)
      | .serialized d => .ok (.serialized d)
      | .memFetch _ => decodeMemFetch out (m.payload out)
      | .memEnd => .ok .memEnd
      | .memDone => .ok .memDone
      | .pageBatch .. => decodePageBatch (m.payload out)
      | .pauseSignal => .ok .pauseSignal) := by
  have hlast : (encode out m).getLast? = some m.tag := by simp [encode]
  have hdrop : (encode out m).dropLast = m.payload out := by simp [encode]
  unfold decode
  rw [hlast, hdrop]
  cases m <;> rfl

/-- A batch header survives its frame. Only the checks on its fields can refuse
it. -/
theorem decodePageBatch_payload {base count flags : Nat}
    {data : List UInt8} (hb : base < 2 ^ 64) (hc1 : 1 ≤ count)
    (hc2 : count ≤ maxPagesPerBatch) (hf : flags < 2) :
    decodePageBatch ((Message.pageBatch base count flags data).payload out)
      = .ok (.pageBatch base count flags data) := by
  have hcount : count < 256 ^ 4 := by
    simp only [maxPagesPerBatch] at hc2
    omega
  have hb8 : ((Message.pageBatch base count flags data).payload out).take 8 = Bytes.le 8 base := by
    simp [Message.payload]
  have hc4 : (((Message.pageBatch base count flags data).payload out).drop
      8).take 4 = Bytes.le 4 count := by
    simp [Message.payload]
  have hf4 : (((Message.pageBatch base count flags data).payload out).drop
      12).take 4 = Bytes.le 4 flags := by
    simp [Message.payload, List.take_append, List.drop_append]
  have hd : ((Message.pageBatch base count flags data).payload out).drop 16 = data := by
    have h8 : (Bytes.le 8 base).drop 16 = [] :=
      List.drop_eq_nil_of_le (by simp)
    have h4 : (Bytes.le 4 count).drop 8 = [] :=
      List.drop_eq_nil_of_le (by simp)
    simp [Message.payload, List.drop_append, h8, h4]
  have hlen : ¬ ((Message.pageBatch base count flags data).payload out).length < 16 := by
    simp [Message.payload]
    omega
  have hflag : unknownFlags flags = false := by
    simp only [unknownFlags]
    have : flags / 2 = 0 := by omega
    simp [this]
  unfold decodePageBatch
  rw [if_neg hlen, hb8, hc4, hf4, hd, Bytes.ofLe_le_of_lt hb,
    Bytes.ofLe_le_of_lt hcount, Bytes.ofLe_le_of_lt (by omega)]
  simp only [hflag]
  rw [if_neg (by omega)]
  rfl

variable {payload : List UInt8} {m : Message}

theorem decodeMemFetch_ok (h : decodeMemFetch out payload = .ok m) : m.tag = 7 := by
  unfold decodeMemFetch at h
  split at h
  · cases h
  · split at h
    · cases h
    · cases h
      rfl

theorem decodePageBatch_ok (h : decodePageBatch payload = .ok m) : m.tag = 11 := by
  unfold decodePageBatch at h
  split at h
  · cases h
  · dsimp only at h
    split at h
    · cases h
    · split at h
      · cases h
      · cases h
        rfl

/-- A frame that decodes ends in the tag of its message. -/
theorem getLast_of_decode {f : List UInt8}
    (h : decode out f = .ok m) : f.getLast? = some m.tag := by
  unfold decode at h
  split at h
  · cases h
  next tag htag =>
    rw [htag]
    refine congrArg some ?_
    dsimp only at h
    split at h
    next h0 =>
      cases h
      exact UInt8.toNat_inj.mp h0
    next h1 =>
      split at h
      · cases h
      · cases h
        exact UInt8.toNat_inj.mp h1
    next h2 =>
      cases h
      exact UInt8.toNat_inj.mp h2
    next h7 =>
      rw [decodeMemFetch_ok h]
      exact UInt8.toNat_inj.mp h7
    next h9 =>
      cases h
      exact UInt8.toNat_inj.mp h9
    next h10 =>
      cases h
      exact UInt8.toNat_inj.mp h10
    next h11 =>
      rw [decodePageBatch_ok h]
      exact UInt8.toNat_inj.mp h11
    next h12 =>
      cases h
      exact UInt8.toNat_inj.mp h12
    · cases h

end Rshyve.Migrate
