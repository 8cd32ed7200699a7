/-
# The transport on the migration wire

`vmm-virtio/src/pci/migrate.rs`: what an export takes from the register
state, the checks a destination makes before it applies anything, and the
order in which the restore applies the rest. The PCI header goes over the
wire too and is not modelled.

The backends' parts are parameters: where the source's cursors come from,
and whether the destination's backend takes the rings. A software device
keeps the default of every one of them.
-/
import Rshyve.Virtio.Pci.Transport

namespace Rshyve.Virtio.Pci

/-- One configured queue on the wire. -/
structure VirtioMigrateQueue where
  queueIdx : BitVec 16
  queueSize : BitVec 16
  descAddr : BitVec 64
  availAddr : BitVec 64
  usedAddr : BitVec 64
  live : Bool
  availIdx : BitVec 16
  usedIdx : BitVec 16
  msixVector : BitVec 16
  deriving DecidableEq, Repr

/-- The cursor difference: the chains in flight. -/
def VirtioMigrateQueue.inFlight (qs : VirtioMigrateQueue) : BitVec 16 :=
  qs.availIdx - qs.usedIdx

/-- The register file on the wire. -/
structure VirtioMigrateState where
  status : BitVec 8
  features : BitVec 64
  configMsixVector : BitVec 16
  msix : Option MsixMigrateState
  queues : List VirtioMigrateQueue
  deriving DecidableEq, Repr

/-- What the source's side reads next to the registers: the cursors a kernel
backend holds for a ring, and the used index in guest memory. -/
structure SourceBackend (n : Nat) where
  kernelRingIndices : Fin n → Except String (Option (BitVec 16 × BitVec 16))
  readUsedRingIdx : VirtQueue → BitVec 16

/-- The calls of a restore that the destination's backend may refuse. -/
structure DestBackend where
  resetAllRings : Except String Unit
  restoreRingState : VirtioMigrateQueue → BitVec 64 → BitVec 32 → Except String Unit

namespace Transport

variable {n : Nat}

-- ==== export

/-- The cursors of a queue: the kernel's pair where the backend has one,
else the device's own and what guest memory says of the used ring. -/
def cursors (t : Transport n) (b : SourceBackend n) (idx : Fin n) :
    Except String (BitVec 16 × BitVec 16) := do
  match ← b.kernelRingIndices idx with
  | some pair => return pair
  | none =>
    let q := t.vs.queues idx
    let guestUsed := b.readUsedRingIdx q
    return (q.lastAvailIdx, if guestUsed ≠ 0 then guestUsed else q.shadowUsedIdx)

/-- A configured queue as the export writes it. -/
def wireQueue (t : Transport n) (idx : Fin n)
    (cur : BitVec 16 × BitVec 16) : VirtioMigrateQueue where
  queueIdx := BitVec.ofNat 16 idx
  queueSize := (t.vs.queues idx).size
  descAddr := (t.vs.queues idx).descAddr
  availAddr := (t.vs.queues idx).availAddr
  usedAddr := (t.vs.queues idx).usedAddr
  live := if has t.vs.guestFeatures fVersion1 then t.vs.queueEnabled idx
    else true
  availIdx := cur.1
  usedIdx := cur.2
  msixVector := t.msixQueueVectors idx

/-- The loop of the export over the queues. -/
def exportQueues (t : Transport n) (b : SourceBackend n) :
    List (Fin n) → Except String (List VirtioMigrateQueue)
  | [] => .ok []
  | idx :: rest =>
    if !(t.vs.queues idx).isConfigured then exportQueues t b rest
    else do
      let cur ← t.cursors b idx
      let qs ← exportQueues t b rest
      return t.wireQueue idx cur :: qs

/-- Snapshot the register file and every queue the driver configured. -/
def exportMigrateQueues (t : Transport n) (b : SourceBackend n) :
    Except String VirtioMigrateState := do
  let queues ← t.exportQueues b (List.finRange n)
  return {
    status := t.vs.status
    features := t.vs.guestFeatures
    configMsixVector := t.msixConfigVector
    msix := t.msix.map MsixTable.exportState
    queues := queues }

-- ==== checks

/-- An MSI-X vector the destination's table can hold. -/
def vectorFits (vector : BitVec 16) (tableLen : Nat) : Bool :=
  vector == msiNoVector || decide (vector.toNat < tableLen)

def checkVector (what : String) (vector : BitVec 16) (tableLen : Nat) : Except String Unit :=
  if vectorFits vector tableLen then .ok ()
  else .error (what ++ " MSI-X vector " ++ toString vector.toNat
    ++ " is past the " ++ toString tableLen ++ "-entry table")

def tableLen (t : Transport n) : Nat := (t.msix.map (·.count)).getD 0

/-- The queue a live payload describes, as the destination would run it. -/
def probe (features : BitVec 64) (qs : VirtioMigrateQueue) : VirtQueue :=
  ((VirtQueue.new qs.queueSize).setAddrModern qs.descAddr qs.availAddr
    qs.usedAddr).setEventIdx (has features fRingEventIdx)

/-- What one queue of the payload must satisfy, its index apart. -/
def checkQueue (t : Transport n) (features : BitVec 64) (idx : Fin n)
    (qs : VirtioMigrateQueue) : Except String Unit := do
  if !(t.vs.queues idx).sizeOffered qs.queueSize then
    .error ("queue " ++ toString qs.queueIdx.toNat ++ " has size "
      ++ toString qs.queueSize.toNat ++ ", not a power of two in 1..="
      ++ toString (t.vs.queues idx).maxSize.toNat)
  else if qs.inFlight > qs.queueSize then
    .error ("queue " ++ toString qs.queueIdx.toNat ++ " reports "
      ++ toString qs.inFlight.toNat ++ " chains in flight on a "
      ++ toString qs.queueSize.toNat ++ "-descriptor ring")
  else do
    checkVector "queue" qs.msixVector t.tableLen
    if qs.live then
      match (probe features qs).validateAddrs t.mem with
      | .ok () => .ok ()
      | .error e => .error ("queue " ++ toString qs.queueIdx.toNat ++ " rings: " ++ e.text)
    else .ok ()

/-- The loop of the checks; `seen` are the queues that came already. -/
def checkQueues (t : Transport n) (features : BitVec 64) :
    (Fin n → Bool) → List VirtioMigrateQueue → Except String Unit
  | _, [] => .ok ()
  | seen, qs :: rest =>
    if h : qs.queueIdx.toNat < n then
      let idx : Fin n := ⟨qs.queueIdx.toNat, h⟩
      if seen idx then
        .error ("queue " ++ toString qs.queueIdx.toNat ++ " appears twice")
      else do
        t.checkQueue features idx qs
        t.checkQueues features (Function.update seen idx true) rest
    else
      .error ("queue " ++ toString qs.queueIdx.toNat
        ++ " is past this device's " ++ toString n ++ " queues")

/-- Everything the payload must satisfy before any of it is applied. -/
def checkMigrateState (t : Transport n) (st : VirtioMigrateState) : Except String Unit := do
  if st.msix.isSome ≠ t.msix.isSome then
    .error ("payload " ++ (if st.msix.isSome then "has" else "has no")
      ++ " an MSI-X table, this device "
      ++ (if t.msix.isSome then "has" else "has none") ++ " one")
  else do
    checkVector "config" st.configMsixVector t.tableLen
    t.checkQueues st.features (fun _ => false) st.queues

-- ==== restore

/-- Features first, on every queue. -/
def restoreFeatures (t : Transport n) (features : BitVec 64) : Transport n :=
  { t with
    vs := { t.vs with guestFeatures := features }.applyFeatures
    log := t.log ++ [.setFeatures features] }

/-- Put one queue of the payload back: a reset makes it unconfigured, which
is the only state that takes a size. -/
def restoreQueue (t : Transport n) (idx : Fin n) (qs : VirtioMigrateQueue) :
    Except String (Transport n) :=
  match (t.vs.queues idx).reset.setSize qs.queueSize with
  | .error e =>
    .error ("queue " ++ toString qs.queueIdx.toNat ++ ": " ++ e.text)
  | .ok q =>
    let q := ((q.setAddrModern qs.descAddr qs.availAddr qs.usedAddr
      ).setLastAvailIdx qs.availIdx).setShadowUsedIdx qs.usedIdx
    let addr : Ring → BitVec 64
      | .desc => qs.descAddr
      | .avail => qs.availAddr
      | .used => qs.usedAddr
    .ok { t with
      vs := { t.vs with
        queues := Function.update t.vs.queues idx q
        queueAddr := fun ring =>
          Function.update (t.vs.queueAddr ring) idx (addr ring)
        queueEnabled := Function.update t.vs.queueEnabled idx qs.live
        queueMsixVectors :=
          Function.update t.vs.queueMsixVectors idx qs.msixVector }
      msixQueueVectors :=
        Function.update t.msixQueueVectors idx qs.msixVector }

def restoreQueues (t : Transport n) : List VirtioMigrateQueue → Except String (Transport n)
  | [] => .ok t
  | qs :: rest =>
    if h : qs.queueIdx.toNat < n then do
      let t ← t.restoreQueue ⟨qs.queueIdx.toNat, h⟩ qs
      t.restoreQueues rest
    else .error "the index was checked"

/-- The status byte as it was, and the config vector. -/
def restoreStatus (t : Transport n) (st : VirtioMigrateState) : Transport n :=
  { t with
    vs := { t.vs with
      status := st.status
      configMsixVector := st.configMsixVector }
    msixConfigVector := st.configMsixVector }

/-- Import the MSI-X table, where both sides have one. -/
def restoreMsix (t : Transport n) (st : VirtioMigrateState) : Except String (Transport n) :=
  match t.msix, st.msix with
  | some table, some wire =>
    match table.importState wire with
    | .ok table => .ok { t with msix := some table }
    | .error e => .error ("MSI-X table: " ++ e.text)
  | _, _ => .ok t

/-- The message a vector sends, `(0, 0)` for a queue without one. -/
def msixEntry (t : Transport n) (vector : BitVec 16) : BitVec 64 × BitVec 32 :=
  if vector = msiNoVector then (0, 0)
  else match t.msix with
    | some table =>
      let e := table.readEntry vector.toNat
      (e.1, e.2.setWidth 32)
    | none => (0, 0)

/-- Hand the live rings to the backend. -/
def restoreRings (t : Transport n) (b : DestBackend) : List VirtioMigrateQueue → Except String Unit
  | [] => .ok ()
  | qs :: rest =>
    if !qs.live then t.restoreRings b rest
    else do
      let e := t.msixEntry qs.msixVector
      b.restoreRingState qs e.1 e.2
      t.restoreRings b rest

/-- `route_msix` of a queue's interrupt: a masked vector is left pending. -/
def raiseQueue (t : Transport n) (vector : BitVec 16) : Transport n :=
  if !t.msixEnabled || vector == msiNoVector then t
  else t.mapMsix fun m => (m.fire vector.toNat).2

/-- Wake each live queue, last. -/
def wakeQueues (t : Transport n) (queues : List VirtioMigrateQueue) : Transport n :=
  queues.foldl (fun t qs => if qs.live then t.raiseQueue qs.msixVector else t) t

/-- Rebuild the transport from an export. -/
def restoreMigrateQueues (t : Transport n) (b : DestBackend)
    (st : VirtioMigrateState) : Except String (Transport n) := do
  t.checkMigrateState st
  b.resetAllRings
  let t ← (t.restoreFeatures st.features).restoreQueues st.queues
  let t ← (t.restoreStatus st).restoreMsix st
  t.restoreRings b st.queues
  return t.wakeQueues st.queues

-- ==== what a failure leaves behind

/-- The loop of the restore, with the device it leaves. A refused size comes
after the reset of its queue. -/
def restoreQueuesIn (t : Transport n) : List VirtioMigrateQueue → Except String Unit × Transport n
  | [] => (.ok (), t)
  | qs :: rest =>
    if h : qs.queueIdx.toNat < n then
      let idx : Fin n := ⟨qs.queueIdx.toNat, h⟩
      match t.restoreQueue idx qs with
      | .error e => (.error e, t.setQueue idx (t.vs.queues idx).reset)
      | .ok t => t.restoreQueuesIn rest
    else (.error "the index was checked", t)

/-- `restore_migrate_queues` with the device it leaves: the stages before
the one that fails stay applied. -/
def restoreMigrateQueuesIn (t : Transport n) (b : DestBackend)
    (st : VirtioMigrateState) : Except String Unit × Transport n :=
  match t.checkMigrateState st with
  | .error e => (.error e, t)
  | .ok () =>
    match b.resetAllRings with
    | .error e => (.error e, t)
    | .ok () =>
      match (t.restoreFeatures st.features).restoreQueuesIn st.queues with
      | (.error e, t) => (.error e, t)
      | (.ok (), t) =>
        let t := t.restoreStatus st
        match t.restoreMsix st with
        | .error e => (.error e, t)
        | .ok t =>
          match t.restoreRings b st.queues with
          | .error e => (.error e, t)
          | .ok () => (.ok (), t.wakeQueues st.queues)

end Transport

end Rshyve.Virtio.Pci
