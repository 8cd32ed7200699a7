/-
# The migration source

`vmm-migrate/src/source.rs`: the full pass, the dirty passes, the pause, the
final pass, the state, the hand-over, and the rollback of a migration that
failed in between.

The source is generic over its transport, its hooks and its VM handle; so is
the model. `SourceIo m` holds what the source calls, in the monad `m` of
whoever runs it: the two-party session of `Migrate.Session` and the
attempt of `Migrate.Rollback` run the same `runSource`.

Log lines, the `status` transfer counters and the sleeps between passes have
no effect on any other line and are left out.
-/
import Rshyve.Mem.Dirty
import Rshyve.Migrate.Pages

namespace Rshyve.Migrate

open Mem (pageSize hex RegionKind DirtyChunk)

-- ==== interface

/-- What the source calls. -/
structure SourceIo (m : Type → Type 1) where
  /-- `set_phase` and the read of `status.phase` -/
  setPhase : MigrationPhase → m Unit
  getPhase : m MigrationPhase
  /-- one binary frame out, one frame in -/
  sendFrame : List UInt8 → m (Except String Unit)
  recvFrame : m (Except MigrateError (List UInt8))
  /-- `set_read_deadline` on the stream -/
  setReadDeadline : m (Except String Unit)
  /-- `memctx.regions()` and `memctx.read(gpa, ..)` of one page -/
  regions : m (List (Nat × Nat × RegionKind))
  memRead : Nat → m (Except String (List UInt8))
  /-- one `VM_TRACK_DIRTY_PAGES` call: read and clear a chunk's bits -/
  trackChunk : DirtyChunk → m (Except String (List UInt8))
  hdlPause : m (Except String Unit)
  hdlResume : m (Except String Unit)
  exportTimeData : m (Except MigrateError TimeData)
  exportDeviceState : m (Except MigrateError (List UInt8))
  zfsBarrierWait : m (Except MigrateError Unit)
  /-- the device hooks -/
  prePause : m (Except String Unit)
  flush : m (Except String Unit)
  exportDevices : m (Except String (List DeviceStatePayload))
  resumeDevices : m Unit
  hypervExport : m (Option (List UInt8))

/-- Source settings, other than the stream. `cpuFeatures` is what this host
exposes under the configured baseline. -/
structure SourceConfig where
  numCpus : Nat
  memSize : Nat
  cpuFeatures : CpuFeatures
  devices : List DeviceIdentity
  zfsBarrier : Bool
  deriving DecidableEq, Repr

/-- The derived order on device identities: address, then kind. -/
def DeviceIdentity.ble (a b : DeviceIdentity) : Bool :=
  ((((compare a.bdf.bus b.bdf.bus).then (compare a.bdf.dev b.bdf.dev)).then
    (compare a.bdf.func b.bdf.func)).then (compare a.kind b.kind)).isLE

section

variable {m : Type → Type 1} [Monad m] (out : Outside)

/-- A call whose error is mapped to the migration's own (`map_err(..)?`). -/
def attempt {ε α : Type} (f : ε → MigrateError) (x : m (Except ε α)) : ExceptT MigrateError m α :=
  ExceptT.mk do
    match ← x with
    | .ok a => pure (.ok a)
    | .error e => pure (.error (f e))

/-- A call whose error is already the migration's own. -/
def attemptE {α : Type} (x : m (Except MigrateError α)) : ExceptT MigrateError m α := ExceptT.mk x

-- ==== channel

/-- `Chan::send`. -/
def chanSend (sendFrame : List UInt8 → m (Except String Unit))
    (msg : Message) : ExceptT MigrateError m Unit :=
  attempt .webSocket (sendFrame (encode out msg))

/-- `Chan::recv`. -/
def chanRecv (recvFrame : m (Except MigrateError (List UInt8))) :
    ExceptT MigrateError m Message := do
  let frame ← attemptE recvFrame
  ExceptT.mk (pure (decode out frame))

/-- `Chan::expect_okay`. -/
def chanExpectOkay (recvFrame : m (Except MigrateError (List UInt8))) :
    ExceptT MigrateError m Unit := do
  let msg ← chanRecv out recvFrame
  ExceptT.mk (pure (expectOkay out msg))

/-- `Chan::expect_serialized`. -/
def chanExpectSerialized {α : Type} (ron : Ron α)
    (recvFrame : m (Except MigrateError (List UInt8))) :
    ExceptT MigrateError m α := do
  let msg ← chanRecv out recvFrame
  let data ← ExceptT.mk (pure (expectSerialized out msg))
  ExceptT.mk (pure (deserialize ron data))

/-- Serialize a value and send it. -/
def chanSendSerialized {α : Type} (ron : Ron α)
    (sendFrame : List UInt8 → m (Except String Unit)) (v : α) :
    ExceptT MigrateError m Unit := do
  let msg ← ExceptT.mk (pure (serialized ron v))
  chanSend out sendFrame msg

/-- `Chan::expect_mem_done`. -/
def chanExpectMemDone (recvFrame : m (Except MigrateError (List UInt8))) :
    ExceptT MigrateError m Unit := do
  let msg ← chanRecv out recvFrame
  ExceptT.mk (pure (expectMemDone msg))

-- ==== page passes

variable (io : SourceIo m)

/-- The loop of `track_dirty_pages` over the chunks of a region. -/
def trackChunks : List DirtyChunk → List UInt8 → ExceptT String m (List UInt8)
  | [], bitmap => pure bitmap
  | c :: rest, bitmap => do
    let bits ← ExceptT.mk (io.trackChunk c)
    trackChunks rest (Mem.splice bitmap c bits)

/-- `hdl.track_dirty_pages` into a fresh bitmap of `bitmapLen` bytes. -/
def trackDirtyPages (gpa len bitmapLen : Nat) : m (Except String (List UInt8)) :=
  ExceptT.run do
    let chunks ← ExceptT.mk (pure (Mem.dirtyChunks gpa len bitmapLen))
    trackChunks io chunks (List.replicate bitmapLen 0)

/-- The loop of `read_pages`: one guest read per page, in order. -/
def readPagesFrom : List Nat → List UInt8 → ExceptT MigrateError m (List UInt8)
  | [], buf => pure buf
  | gpa :: rest, buf => do
    let page ← attempt (fun e => .io ("guest memory read gpa=" ++ hex gpa ++ ": " ++ e))
      (io.memRead gpa)
    readPagesFrom rest (buf ++ page)

/-- `read_pages` into a fresh buffer of the right size. -/
def readPages (gpas : List Nat) : ExceptT MigrateError m (List UInt8) := do
  let _ ← ExceptT.mk (pure (pageBufferLen gpas.length))
  readPagesFrom io gpas []

/-- Send `count` consecutive pages from `baseGpa` on. -/
def sendBatch (baseGpa count : Nat) : ExceptT MigrateError m Unit := do
  let _ ← ExceptT.mk (pure (pageBufferLen count))
  let gpas ← ExceptT.mk (pure (buildContiguousGpas baseGpa count))
  let buf ← readPages io gpas
  let (data, flags) := compress out buf
  let n ← ExceptT.mk (pure (pageCountU32 count))
  chanSend out io.sendFrame (.pageBatch baseGpa n flags data)

/-- Send a list of pages: as one run when they are consecutive, else behind
a `MemFetch` that names them. -/
def sendBatchSparse (gpas : List Nat) : ExceptT MigrateError m Unit :=
  match gpas with
  | [] => pure ()
  | base :: _ =>
    if areContiguous gpas then sendBatch out io base gpas.length
    else do
      let _ ← ExceptT.mk (pure (pageBufferLen gpas.length))
      let buf ← readPages io gpas
      let (data, flags) := compress out buf
      chanSend out io.sendFrame (.memFetch (gpas.map (BitVec.ofNat 64)))
      let n ← ExceptT.mk (pure (pageCountU32 gpas.length))
      chanSend out io.sendFrame (.pageBatch base n flags data)

/-- The `while` loop over one region in `push_ram_all`. The fuel is the
number of pages left. -/
def pushAllFrom (gpa numPages : Nat) : Nat → Nat → ExceptT MigrateError m Unit
  | 0, _ => pure ()
  | fuel + 1, off =>
    if off < numPages then do
      let count := min batchSize (numPages - off)
      sendBatch out io (gpa + off * pageSize) count
      pushAllFrom gpa numPages fuel (off + count)
    else pure ()

/-- One region of the full pass. -/
def pushAllRegion (gpa len : Nat) (kind : RegionKind) : ExceptT MigrateError m Unit :=
  if kind ≠ .ram then pure ()
  else do
    let _ ← attempt (fun e => .io ("dirty tracking unavailable: " ++ e))
      (trackDirtyPages io gpa len (bitmapSize len))
    pushAllFrom out io gpa (len / pageSize) (len / pageSize) 0

/-- End a pass and wait for the destination to have taken all of it. -/
def endPass : ExceptT MigrateError m Unit := do
  chanSend out io.sendFrame .memEnd
  chanExpectMemDone out io.recvFrame

/-- The full pass. -/
def pushRamAll : ExceptT MigrateError m Unit := do
  let regions ← ExceptT.lift io.regions
  regions.forM fun (gpa, len, kind) => pushAllRegion out io gpa len kind
  endPass out io

/-- One region of a dirty pass: the number of pages it sent. -/
def pushRegion (gpa len : Nat) (kind : RegionKind) : ExceptT MigrateError m Nat :=
  if kind ≠ .ram then pure 0
  else do
    let bm ← attempt (fun e => .io ("track_dirty: " ++ e))
      (trackDirtyPages io gpa len (bitmapSize len))
    let pages := (PageIter.new bm gpa len).pages
    (cutBatches [] pages).forM fun batch => sendBatchSparse out io batch
    pure pages.length

/-- The region loop of a dirty pass, with its running total. -/
def pushRegions : List (Nat × Nat × RegionKind) → Nat → ExceptT MigrateError m Nat
  | [], total => pure total
  | (gpa, len, kind) :: rest, total => do
    let n ← pushRegion out io gpa len kind
    pushRegions rest (total + n)

/-- A dirty pass: the number of pages it sent. -/
def pushRam : ExceptT MigrateError m Nat := do
  let regions ← ExceptT.lift io.regions
  let total ← pushRegions out io regions 0
  endPass out io
  pure total

/-- The dirty passes before the pause: at most `n`, fewer once a pass finds
at most 1024 dirty pages. -/
def converge : Nat → ExceptT MigrateError m Unit
  | 0 => pure ()
  | n + 1 => do
    let dirty ← pushRam out io
    if dirty ≤ 1024 then pure () else converge n

-- ==== the run

variable (config : SourceConfig)

/-- The destination must have picked this version's protocol. -/
def checkSelect (sel : ProtocolSelect) : Except MigrateError Unit :=
  if sel.protocol = protocolRon then .ok ()
  else .error (.protocolMismatch (peerText out sel.protocol))

/-- Sync: negotiate, compare the VMs. -/
def sourceSync : ExceptT MigrateError m Unit := do
  ExceptT.lift (io.setPhase .sync)
  chanSendSerialized out out.offer io.sendFrame ⟨[protocolRon]⟩
  let sel ← chanExpectSerialized out out.select io.recvFrame
  ExceptT.mk (pure (checkSelect out sel))
  chanSendSerialized out out.preamble io.sendFrame
    { numCpus := config.numCpus
      memSize := config.memSize
      devices := config.devices.mergeSort DeviceIdentity.ble
      cpuFeatures := some config.cpuFeatures }
  chanExpectOkay out io.recvFrame

/-- The passes that run while the guest does. -/
def sourcePreCopy : ExceptT MigrateError m Unit := do
  ExceptT.lift (io.setPhase .ramPushPrePause)
  pushRamAll out io
  converge out io 5
  chanSend out io.sendFrame .pauseSignal

/-- Wait for the ZFS barrier, when one is configured. -/
def zfsBarrier : ExceptT MigrateError m Unit :=
  if config.zfsBarrier then attemptE io.zfsBarrierWait else pure ()

/-- Stop the guest. Every failure from here on rolls back, so the phase is
recorded before the first step that can fail. -/
def sourcePause : ExceptT MigrateError m (Option (List UInt8)) := do
  ExceptT.lift (io.setPhase .pause)
  attempt (fun e => .io ("shorten read deadline: " ++ e)) io.setReadDeadline
  attempt (fun e => .state ("device pause: " ++ e)) io.prePause
  attempt (fun e => .io ("pause: " ++ e)) io.hdlPause
  attempt (fun e => .io ("device flush failed: " ++ e)) io.flush
  zfsBarrier io config
  ExceptT.lift io.hypervExport

/-- The final pass, and the state of the machine. -/
def sourceState (hyperv : Option (List UInt8)) : ExceptT MigrateError m Unit := do
  ExceptT.lift (io.setPhase .ramPushPostPause)
  let _ ← pushRam out io
  ExceptT.lift (io.setPhase .timeData)
  let time ← attemptE io.exportTimeData
  chanSendSerialized out out.time io.sendFrame time
  ExceptT.lift (io.setPhase .deviceState)
  let kernel ← attemptE io.exportDeviceState
  let emulated ← attempt (fun e => .state ("device export: " ++ e)) io.exportDevices
  chanSendSerialized out out.device io.sendFrame ⟨kernel, emulated, hyperv⟩
  ExceptT.lift (io.setPhase .ramPull)
  chanSend out io.sendFrame .memEnd

/-- The hand-over. The destination reports that it holds all state, the
source commits, the destination starts the guest. -/
def sourceFinish : ExceptT MigrateError m Unit := do
  ExceptT.lift (io.setPhase .finish)
  chanExpectOkay out io.recvFrame
  chanSend out io.sendFrame .okay
  ExceptT.lift (io.setPhase .committed)
  attempt (fun e => .committed ("the destination never confirmed it started the guest: " ++
        MigrateError.text e))
    (chanExpectOkay out io.recvFrame).run

/-- `source::run_inner`. Closing the stream at the end has no outcome. -/
def sourceInner : ExceptT MigrateError m Unit := do
  sourceSync out io config
  sourcePreCopy out io
  let hyperv ← sourcePause io config
  sourceState out io hyperv
  sourceFinish out io

/-- A failure before the pause changed nothing; one at or after the commit
cannot be undone. -/
def rollsBack (phase : MigrationPhase) : Bool :=
  MigrationPhase.pause.toNat ≤ phase.toNat && phase.toNat < MigrationPhase.committed.toNat

/-- Roll the source back when a migration failed after the pause. A refused
resume of the VM is only logged. -/
def finishSource (result : Except MigrateError Unit)
    (phase : MigrationPhase) : m (Except MigrateError Unit) :=
  match result with
  | .ok () => pure (.ok ())
  | .error e =>
    if rollsBack phase then do
      io.resumeDevices
      let _ ← io.hdlResume
      pure (.error e)
    else pure (.error e)

/-- `run_source`, from an open channel on. -/
def runSource : m (Except MigrateError Unit) := do
  let result ← (sourceInner out io config).run
  let phase ← io.getPhase
  finishSource io result phase

end

end Rshyve.Migrate
