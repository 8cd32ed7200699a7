/-
# The migration destination

`vmm-migrate/src/destination.rs`: the checks on the preamble, the RAM passes,
the import of the state, and the start of the guest once the source has
committed. Generic over its transport, hooks and VM handle like the source
(`Migrate.Source`). The receive loop has no bound of its own, so the
interface also holds the loop of whoever runs the destination.
-/
import Rshyve.Migrate.Source

namespace Rshyve.Migrate

open Mem (hex)

-- ==== interface

/-- What the destination calls. -/
structure DestIo (m : Type → Type 1) where
  loop : {S T : Type} → (S → m (S ⊕ T)) → S → m T
  setPhase : MigrationPhase → m Unit
  sendFrame : List UInt8 → m (Except String Unit)
  recvFrame : m (Except MigrateError (List UInt8))
  setReadDeadline : m (Except String Unit)
  /-- `apply_page_batch` on this VM's memory -/
  applyBatch : Nat → Nat → Nat → List UInt8 → Option (List Nat) → m (Except MigrateError Unit)
  hdlPause : m (Except String Unit)
  hdlResume : m (Except String Unit)
  importTimeData : TimeData → m (Except MigrateError Unit)
  importDeviceState : DeviceState → m (Except MigrateError Unit)
  /-- the device hooks -/
  restoreDevice : WireBdf → List UInt8 → m (Except String Unit)
  hypervRestore : List UInt8 → m Bool
  resumeDevices : m Unit

/-- Destination settings, other than the stream. -/
structure DestConfig where
  numCpus : Nat
  memSize : Nat
  cpuFeatures : CpuFeatures
  devices : List DeviceIdentity
  allowCpuFeatureMismatch : Bool
  deriving DecidableEq, Repr

-- ==== checks

/-- Every bit the source has and the destination does not have. -/
def missing (src dst : CpuFeatures) : CpuFeatures where
  leaf1Ecx := src.leaf1Ecx &&& ~~~dst.leaf1Ecx
  leaf1Edx := src.leaf1Edx &&& ~~~dst.leaf1Edx
  leaf7Ebx := src.leaf7Ebx &&& ~~~dst.leaf7Ebx
  leaf7Ecx := src.leaf7Ecx &&& ~~~dst.leaf7Ecx
  leaf7Edx := src.leaf7Edx &&& ~~~dst.leaf7Edx
  xcr0 := src.xcr0 &&& ~~~dst.xcr0

/-- The display text of a feature gap (`Missing`). -/
def missingText (f : CpuFeatures) : String :=
  "leaf1.ecx=" ++ hex f.leaf1Ecx.toNat ++ " leaf1.edx=" ++
    hex f.leaf1Edx.toNat ++ " leaf7.ebx=" ++ hex f.leaf7Ebx.toNat ++
    " leaf7.ecx=" ++ hex f.leaf7Ecx.toNat ++ " leaf7.edx=" ++
    hex f.leaf7Edx.toNat ++ " xcr0=" ++ hex f.xcr0.toNat

/-- `{:?}` on a list of strings. -/
def debugList (out : Outside) (xs : List String) : String :=
  "[" ++ ", ".intercalate (xs.map out.debug) ++ "]"

/-- The source's device set must equal this VM's device set. -/
def checkTopology (out : Outside) (source «local» : List DeviceIdentity) :
    Except MigrateError Unit :=
  let named (set : List DeviceIdentity) : List String :=
    (set.map DeviceIdentity.text).mergeSort (compare · · |>.isLE)
  let src := named source
  let dst := named «local»
  if src = dst then .ok ()
  else
    let onlySrc := src.filter fun d => !dst.contains d
    let onlyDst := dst.filter fun d => !src.contains d
    .error (.preambleMismatch
      ("device set mismatch: only on the source " ++ debugList out onlySrc ++
        ", only here " ++ debugList out onlyDst))

/-- Refuse a source that this VM cannot replace, before a page is taken. -/
def checkPreamble (out : Outside) (config : DestConfig)
    (p : MigrationPreamble) : Except MigrateError Unit := do
  if p.numCpus ≠ config.numCpus then
    throw (.preambleMismatch ("CPU count mismatch: source has " ++
      toString p.numCpus ++ ", we have " ++ toString config.numCpus))
  if p.memSize ≠ config.memSize then
    throw (.preambleMismatch ("memory size mismatch: source has " ++
      toString p.memSize ++ " bytes, we have " ++ toString config.memSize))
  checkTopology out p.devices config.devices
  match p.cpuFeatures with
  | none =>
    throw (.preambleMismatch "source sent no CPU feature table")
  | some src =>
    let gap := missing src config.cpuFeatures
    if gap = ⟨0, 0, 0, 0, 0, 0⟩ then return ()
    if config.allowCpuFeatureMismatch then return ()
    throw (.preambleMismatch ("this host lacks CPU features the guest already sees (" ++
        missingText gap ++ "); send migrate-dest with " ++
        "allow_cpu_feature_mismatch to accept the risk"))

/-- The order of the `BTreeMap` that `restore_devices` keys by address. -/
def WireBdf.ble (a b : WireBdf) : Bool :=
  (((compare a.bus b.bus).then (compare a.dev b.dev)).then (compare a.func b.func)).isLE

/-- The first loop of `restore_devices`: every entry names a device of this
VM, and no device is named twice. -/
def checkEntries (config : DestConfig) :
    List DeviceStatePayload → List WireBdf → Except MigrateError (List WireBdf)
  | [], seen => .ok seen
  | entry :: rest, seen =>
    if !(config.devices.any fun d => d.bdf == entry.bdf) then
      .error (.state ("payload carries state for " ++ entry.bdf.text ++
        ", which this VM has no device at"))
    else if seen.contains entry.bdf then
      .error (.state ("payload carries two states for " ++ entry.bdf.text))
    else checkEntries config rest (entry.bdf :: seen)

/-- Every device of this VM has an entry; the first that has none, in
address order, is named. -/
def checkComplete (config : DestConfig) (seen : List WireBdf) : Except MigrateError Unit :=
  let keys := (config.devices.map DeviceIdentity.bdf).mergeSort WireBdf.ble
  match keys.find? fun bdf => !seen.contains bdf with
  | none => .ok ()
  | some bdf =>
    let kind := match config.devices.reverse.find? fun d => d.bdf == bdf with
      | some d => d.kind
      | none => ""
    .error (.state ("payload carries no entry for " ++ bdf.text ++ " (" ++ kind ++ ")"))

section

variable {m : Type → Type 1} [Monad m] (out : Outside) (io : DestIo m) (config : DestConfig)

/-- The restore loop: every entry that carries state. -/
def restoreEntries : List DeviceStatePayload → ExceptT MigrateError m Unit
  | [] => pure ()
  | entry :: rest =>
    match entry.state with
    | none => restoreEntries rest
    | some state => do
      attempt (fun e => .state (entry.bdf.text ++ ": " ++ e)) (io.restoreDevice entry.bdf state)
      restoreEntries rest

/-- The Hyper-V part of the payload, if it has one. -/
def restoreHyperv : Option (List UInt8) → ExceptT MigrateError m Unit
  | none => pure ()
  | some h => do
    let known ← ExceptT.lift (io.hypervRestore h)
    if known then pure ()
    else throw (.state ("payload carries Hyper-V enlightenment state, " ++
      "and this VM was not started with --hyperv"))

/-- Give every device the state that its counterpart exported. -/
def restoreDevices (devState : DeviceState) : ExceptT MigrateError m Unit := do
  let seen ← ExceptT.mk (pure (checkEntries config devState.emulated []))
  ExceptT.mk (pure (checkComplete config seen))
  restoreHyperv io devState.hyperv
  restoreEntries io devState.emulated

/-- Tell the peer why this end stopped. A failed send is only logged. -/
def reportFailure (e : MigrateError) : m Unit := do
  let _ ← (chanSend out io.sendFrame (.error e)).run
  pure ()

/-- A step whose failure is reported to the peer before it is returned. -/
def reporting (x : ExceptT MigrateError m Unit) : ExceptT MigrateError m Unit :=
  ExceptT.mk do
    match ← x.run with
    | .ok () => pure (.ok ())
    | .error e =>
      reportFailure out io e
      pure (.error e)

-- ==== the passes

/-- The message that ends a RAM pass. -/
inductive PassEnd where
  | pauseSignal
  | memEnd
  deriving DecidableEq, Repr

/-- One round of the receive loop: go on with the addresses of the next
batch, or leave. -/
def receiveRound («until» : PassEnd) (sparse : Option (List Nat)) :
    m (Option (List Nat) ⊕ Except MigrateError Unit) := do
  match ← (chanRecv out io.recvFrame).run with
  | .error e => pure (.inr (.error e))
  | .ok msg =>
    match msg, sparse with
    | .pageBatch base count flags data, gpas =>
      match ← io.applyBatch base count flags data gpas with
      | .ok () => pure (.inl none)
      | .error e => pure (.inr (.error e))
    | .memFetch gpas, none => pure (.inl (some (gpas.map BitVec.toNat)))
    | .memEnd, none =>
      match ← (chanSend out io.sendFrame .memDone).run with
      | .error e => pure (.inr (.error e))
      | .ok () =>
        if «until» = .memEnd then pure (.inr (.ok ()))
        else pure (.inl none)
    | .pauseSignal, none =>
      if «until» = .pauseSignal then pure (.inr (.ok ()))
      else pure (.inr (.error (unexpected "PageBatch/MemFetch/MemEnd/PauseSignal" msg)))
    | other, some _ =>
      pure (.inr (.error (unexpected "PageBatch following MemFetch" other)))
    | other, none =>
      pure (.inr (.error (unexpected "PageBatch/MemFetch/MemEnd/PauseSignal" other)))

/-- Receive RAM passes until `until` arrives. -/
def receivePass («until» : PassEnd) : ExceptT MigrateError m Unit :=
  ExceptT.mk (io.loop (receiveRound out io «until») none)

-- ==== the run

/-- Refuse an offer without this version's protocol. -/
def checkOffer (offer : ProtocolOffer) : ExceptT MigrateError m Unit :=
  if offer.protocols.any (· == protocolRon) then pure ()
  else do
    let err := MigrateError.protocolMismatch (peerText out (",".intercalate offer.protocols))
    chanSend out io.sendFrame (.error err)
    throw err

/-- Sync: negotiate, check that this VM can take the guest. -/
def destSync : ExceptT MigrateError m Unit := do
  ExceptT.lift (io.setPhase .sync)
  let offer ← chanExpectSerialized out out.offer io.recvFrame
  checkOffer out io offer
  chanSendSerialized out out.select io.sendFrame ⟨protocolRon⟩
  let preamble ← chanExpectSerialized out out.preamble io.recvFrame
  reporting out io (ExceptT.mk (pure (checkPreamble out config preamble)))
  chanSend out io.sendFrame .okay

/-- Every RAM pass, then stop this VM for the import. -/
def destRam : ExceptT MigrateError m Unit := do
  ExceptT.lift (io.setPhase .ramPushPrePause)
  receivePass out io .pauseSignal
  ExceptT.lift (io.setPhase .ramPushPostPause)
  attempt (fun e => .io ("shorten read deadline: " ++ e)) io.setReadDeadline
  receivePass out io .memEnd
  attempt (fun e => .io ("pause: " ++ e)) io.hdlPause

/-- The import of the machine's state. -/
def destState : ExceptT MigrateError m Unit := do
  ExceptT.lift (io.setPhase .timeData)
  let time ← chanExpectSerialized out out.time io.recvFrame
  reporting out io (attemptE (io.importTimeData time))
  ExceptT.lift (io.setPhase .deviceState)
  let devState ← chanExpectSerialized out out.device io.recvFrame
  reporting out io (restoreDevices io config devState)
  reporting out io (attemptE (io.importDeviceState devState))
  ExceptT.lift (io.setPhase .ramPull)
  let msg ← chanRecv out io.recvFrame
  if msg = .memEnd then pure () else throw (unexpected "MemEnd" msg)

/-- The hand-over: nothing starts until the source commits. -/
def destFinish : ExceptT MigrateError m Unit := do
  ExceptT.lift (io.setPhase .finish)
  chanSend out io.sendFrame .okay
  chanExpectOkay out io.recvFrame
  ExceptT.lift (io.setPhase .committed)
  ExceptT.lift io.resumeDevices
  attempt (fun e => .io ("resume: " ++ e)) io.hdlResume
  chanSend out io.sendFrame .okay

/-- `destination::run_inner`, from an open channel on. -/
def runDestination : m (Except MigrateError Unit) :=
  ExceptT.run do
    destSync out io config
    destRam out io
    destState out io config
    destFinish out io

end

end Rshyve.Migrate
