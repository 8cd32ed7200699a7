/-
# The parts of a migration that only move data

Most of what both ends of a migration do is to read pages, to send frames
and to wait for frames. This module says, function by function along
`Migrate.Source` and `Migrate.Destination`, which calls such a part makes.
Whatever discipline the programs are put under, a part stays where each of
these calls does (`Discipline.stays_only`). The proofs about the hand-over,
about memory and about the rollback then only look at the calls that matter
to them.

A frame counts as quiet when it does not carry the tag of `Okay`: that one
message moves the hand-over.
-/
import Rshyve.Migrate.Session

namespace Rshyve.Migrate.Session

open Conc Discipline
open Mem (RegionKind DirtyChunk)

variable {out : Outside} {lo : Nat}

-- ==== the channel

@[simp] theorem encode_getLast (m : Message) :
    (encode out m).getLast? = some m.tag := by
  simp [encode]

theorem attempt_run {ε α : Type} {f : ε → MigrateError}
    {x : Prog (Except ε α)} :
    (attempt f x).run = Except.mapError f <$> x := by
  refine congrArg (x >>= ·) (funext fun r => ?_)
  cases r <;> rfl

variable {L : Type} {D : Discipline Op Ans L} {l : L}

theorem keeps_attempt {ε α : Type} {f : ε → MigrateError}
    {x : Prog (Except ε α)} {Q : L → Except MigrateError α → Prop}
    (h : D.Keeps x (fun l r =>
      match r with
      | .ok a => Q l (.ok a)
      | .error e => Q l (.error (f e))) l) :
    D.Keeps (attempt f x).run Q l := by
  refine Keeps.bind (h.mono ?_)
  intro l r hr
  cases r with
  | ok a => exact hr
  | error e => exact hr

theorem keeps_chanRecv {x : Prog (Except MigrateError (List UInt8))}
    {Q : L → Except MigrateError Message → Prop}
    (h : D.Keeps x (fun l r =>
      match r with
      | .ok f => Q l (decode out f)
      | .error e => Q l (.error e)) l) :
    D.Keeps (chanRecv out x).run Q l := by
  refine Keeps.andThen (h.mono ?_)
  intro l r hr
  cases r with
  | ok f => exact hr
  | error e => exact hr

theorem serialized_eq_ok {α : Type} {ron : Ron α} {v : α} {m : Message} :
    serialized ron v = .ok m ↔ ∃ d, ron.ser v = .ok d ∧ .serialized d = m := by
  unfold serialized
  split <;> simp_all

theorem expectOkay_eq_ok {m : Message} {u : Unit} :
    expectOkay out m = .ok u ↔ m = .okay := by
  cases m <;> simp [expectOkay]

/-- To wait for an `Okay` is to receive. -/
theorem only_chanExpectOkay :
    Only (· = .recv) (chanExpectOkay out sourceIo.recvFrame).run
      fun _ => True := by
  simp [-ExceptT.run_bind, chanExpectOkay, chanRecv, attemptE, try_iff]

theorem only_confirm (f : MigrateError → MigrateError) :
    Only (· = .recv) (attempt f (chanExpectOkay out sourceIo.recvFrame).run).run
      fun _ => True := by
  rw [attempt_run]
  exact steady_map.mpr only_chanExpectOkay

-- ==== source passes

/-- Calls that read, that move data, or that record a phase from `lo` on. -/
@[simp] def Quiet (lo : Nat) : Op → Prop
  | .setPhase p => lo ≤ p.toNat
  | .send f => f.getLast? ≠ some 0
  | .recv | .regions | .memRead _ | .trackChunk _ | .exportTimeData
  | .exportDeviceState | .exportDevices => True
  | _ => False

theorem quiet_trackDirtyPages (gpa len n : Nat) :
    Only (Quiet lo) (trackDirtyPages sourceIo gpa len n) fun _ => True := by
  have hchunks (cs : List DirtyChunk) (bm : List UInt8) :
      Only (Quiet lo) (trackChunks sourceIo cs bm).run fun _ => True := by
    induction cs generalizing bm with
    | nil => simp [trackChunks]
    | cons c cs ih =>
      simp [-ExceptT.run_bind, trackChunks, ih, try_iff]
  simp [-ExceptT.run_bind, trackDirtyPages, try_iff, hchunks]

theorem quiet_readPages (gpas : List Nat) :
    Only (Quiet lo) (readPages sourceIo gpas).run fun _ => True := by
  have hpages (buf : List UInt8) :
      Only (Quiet lo) (readPagesFrom sourceIo gpas buf).run fun _ => True := by
    induction gpas generalizing buf with
    | nil => simp [readPagesFrom]
    | cons gpa gpas ih =>
      simp [-ExceptT.run_bind, readPagesFrom, attempt_run, ih, try_iff]
  simp [-ExceptT.run_bind, readPages, try_iff, hpages]

theorem quiet_sendBatch (base count : Nat) :
    Only (Quiet lo) (sendBatch out sourceIo base count).run fun _ => True := by
  simp [-ExceptT.run_bind, sendBatch, chanSend, attempt_run, try_iff,
    only_of (quiet_readPages _), Message.tag]

theorem quiet_sendBatchSparse (gpas : List Nat) :
    Only (Quiet lo) (sendBatchSparse out sourceIo gpas).run fun _ => True := by
  cases gpas <;>
    simp [-ExceptT.run_bind, sendBatchSparse, chanSend, attempt_run, try_iff,
      only_of (quiet_readPages _), Message.tag, quiet_sendBatch]

theorem quiet_pushAllRegion (gpa len : Nat) (kind : RegionKind) :
    Only (Quiet lo) (pushAllRegion out sourceIo gpa len kind).run
      fun _ => True := by
  have hfrom (n fuel off : Nat) :
      Only (Quiet lo) (pushAllFrom out sourceIo gpa n fuel off).run
        fun _ => True := by
    induction fuel generalizing off with
    | zero => simp [pushAllFrom]
    | succ fuel ih =>
      simp [-ExceptT.run_bind, pushAllFrom, only_of (quiet_sendBatch _ _), ih,
        try_iff]
  simp [-ExceptT.run_bind, pushAllRegion, attempt_run,
    only_of (quiet_trackDirtyPages _ _ _), hfrom, try_iff]

theorem quiet_forM {α : Type} {f : α → ExceptT MigrateError Prog Unit}
    (h : ∀ a, Only (Quiet lo) (f a).run fun _ => True) (xs : List α) :
    Only (Quiet lo) (forM xs f).run fun _ => True := by
  induction xs with
  | nil => simp
  | cons x xs ih => simp [-ExceptT.run_bind, only_of (h _), ih, try_iff]

theorem quiet_endPass :
    Only (Quiet lo) (endPass out sourceIo).run fun _ => True := by
  simp [-ExceptT.run_bind, endPass, chanSend, chanExpectMemDone, chanRecv,
    attempt_run, attemptE, try_iff, Message.tag]

theorem quiet_pushRamAll :
    Only (Quiet lo) (pushRamAll out sourceIo).run fun _ => True := by
  have hregions (rs : List (Nat × Nat × RegionKind)) :
      Only (Quiet lo) (forM rs fun (gpa, len, kind) =>
        pushAllRegion out sourceIo gpa len kind).run fun _ => True :=
    quiet_forM (fun (gpa, len, kind) => quiet_pushAllRegion gpa len kind) rs
  simp [-ExceptT.run_bind, pushRamAll, only_of (hregions _), quiet_endPass,
    try_iff]

theorem quiet_pushRegion (gpa len : Nat) (kind : RegionKind) :
    Only (Quiet lo) (pushRegion out sourceIo gpa len kind).run
      fun _ => True := by
  have hbatches (bs : List (List Nat)) : Only (Quiet lo)
      (forM bs (sendBatchSparse out sourceIo)).run fun _ => True :=
    quiet_forM quiet_sendBatchSparse bs
  simp [-ExceptT.run_bind, pushRegion, attempt_run,
    only_of (quiet_trackDirtyPages _ _ _), only_of (hbatches _), try_iff]

theorem quiet_pushRam :
    Only (Quiet lo) (pushRam out sourceIo).run fun _ => True := by
  have hregions (rs : List (Nat × Nat × RegionKind)) (total : Nat) :
      Only (Quiet lo) (pushRegions out sourceIo rs total).run
        fun _ => True := by
    induction rs generalizing total with
    | nil => simp [pushRegions]
    | cons r rs ih =>
      simp [-ExceptT.run_bind, pushRegions, only_of (quiet_pushRegion _ _ _),
        ih, try_iff]
  simp [-ExceptT.run_bind, pushRam, only_of (hregions _ _),
    only_of quiet_endPass, try_iff]

theorem quiet_sourceSync (cfg : SourceConfig) :
    Only (Quiet 0) (sourceSync out sourceIo cfg).run fun _ => True := by
  simp [-ExceptT.run_bind, sourceSync, chanSendSerialized, chanSend,
    chanExpectSerialized, chanExpectOkay, chanRecv, attempt_run, attemptE,
    serialized_eq_ok, try_iff, Message.tag]

theorem quiet_sourcePreCopy :
    Only (Quiet 0) (sourcePreCopy out sourceIo).run fun _ => True := by
  have hconverge (n : Nat) :
      Only (Quiet 0) (converge out sourceIo n).run fun _ => True := by
    induction n with
    | zero => simp [converge]
    | succ n ih =>
      simp [-ExceptT.run_bind, converge, only_of quiet_pushRam, ih, try_iff]
  simp [-ExceptT.run_bind, sourcePreCopy, chanSend, attempt_run,
    only_of quiet_pushRamAll, only_of (hconverge _), Message.tag, try_iff]

theorem quiet_sourceState (hyperv : Option (List UInt8)) :
    Only (Quiet MigrationPhase.pause.toNat)
      (sourceState out sourceIo hyperv).run fun _ => True := by
  simp [-ExceptT.run_bind, sourceState, chanSendSerialized, chanSend,
    attempt_run, attemptE, serialized_eq_ok, try_iff, only_of quiet_pushRam,
    Message.tag, MigrationPhase.toNat]

-- ==== destination passes

/-- Calls of the destination before it starts its guest. -/
@[simp] def Open : Op → Prop
  | .resume | .resumeDevices => False
  | _ => True

theorem open_destSync (cfg : DestConfig) :
    Only Open (destSync out destIo cfg).run fun _ => True := by
  have hcheck (p : MigrationPreamble) : Only Open (reporting out destIo
      (ExceptT.mk (pure (checkPreamble out cfg p)))).run fun _ => True := by
    unfold reporting
    cases checkPreamble out cfg p <;>
      simp [reportFailure, chanSend, attempt_run]
  simp [-ExceptT.run_bind, destSync, checkOffer, chanSendSerialized, chanSend,
    chanExpectSerialized, chanRecv, attempt_run, attemptE, try_iff,
    only_of (hcheck _)]

theorem open_receiveRound («until» : PassEnd) (sparse : Option (List Nat)) :
    Only Open (receiveRound out destIo «until» sparse) fun _ => True := by
  have hrecv : Only Open (chanRecv out destIo.recvFrame).run fun _ => True := by
    simp [-ExceptT.run_bind, chanRecv, attemptE, try_iff]
  refine steady_bind.mpr (only_of hrecv fun r => ?_)
  rcases r with e | msg
  · trivial
  · cases msg <;> cases sparse <;> simp [chanSend, attempt, forall_except]

theorem open_destRam : Only Open (destRam out destIo).run fun _ => True := by
  simp [-ExceptT.run_bind, destRam, receivePass, attempt_run,
    only_of (open_receiveRound _ _), try_iff]

/-- Calls of the import. -/
@[simp] def Imports : Op → Prop
  | .setPhase _ | .recv | .hook (.restoreDevice ..) | .hypervRestore _
  | .stateCall (.importTimeData _) | .stateCall (.importDeviceState _) => True
  | .send f => f.getLast? = some 1
  | _ => False

theorem imports_restoreDevices (cfg : DestConfig) (d : DeviceState) :
    Only Imports (restoreDevices destIo cfg d).run fun _ => True := by
  have hentries (es : List DeviceStatePayload) :
      Only Imports (restoreEntries destIo es).run fun _ => True := by
    induction es with
    | nil => simp [restoreEntries]
    | cons e es ih =>
      unfold restoreEntries
      cases e.state <;> simp [-ExceptT.run_bind, attempt_run, ih, try_iff]
  have hhyperv (h : Option (List UInt8)) :
      Only Imports (restoreHyperv destIo h).run fun _ => True := by
    cases h with
    | none => trivial
    | some h => exact ⟨trivial, fun known _ => by cases known <;> trivial⟩
  simp [-ExceptT.run_bind, restoreDevices, try_iff, only_of (hhyperv _),
    hentries]

theorem imports_destState (cfg : DestConfig) :
    Only Imports (destState out destIo cfg).run fun _ => True := by
  simp [-ExceptT.run_bind, destState, reporting, reportFailure, chanSend,
    chanExpectSerialized, chanRecv, attempt, attemptE, try_iff, forall_except,
    only_of (imports_restoreDevices _ _), Message.tag]

end Rshyve.Migrate.Session
