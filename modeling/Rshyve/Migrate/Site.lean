/-
# The destination's side alone

The destination as one thread beside a peer that has decided in advance what
it will send, and hooks that have decided how they will answer. A `Site` is
that supply of answers, the memory of this VM, and the calls made so far;
`answer` runs the destination's operations against it (`Conc.Alone`).
Nothing is assumed about the peer: the frames are any list.

# A batch, step by step

`applyPageBatch` gives back no memory when it fails, and its lookups cannot
go wrong. `applyBatch` is the same function with both put back: the memory
as it is when the function returns, however it returns, and `none` where an
addition or a subtraction that the source does not check would overflow and
end the program. `PhysMap::lookup` has three of these. They are safe because
of what every address map satisfies (`Laid`).

The transfer counters are left out. Nothing reads them, and a counter that
passes the end of a `u64` wraps in the release profile.
-/
import Rshyve.Conc.Alone
import Rshyve.Migrate.Session

namespace Rshyve.Migrate

open Conc
open Mem (pageSize GuestMem AddressSpace SubMapping checkedAdd poke unmapped)

-- ==== address maps

/-- Regions and runs end inside the 64-bit address space, and a region's run
starts no later than the region. -/
def Laid (s : AddressSpace) : Prop :=
  ∀ r ∈ s.regions, r.stop < 2 ^ 64 ∧ r.tracked.stop < 2 ^ 64 ∧ r.tracked.gpa ≤ r.gpa

instance : DecidablePred Laid := fun s =>
  inferInstanceAs (Decidable (∀ r ∈ s.regions, _ ∧ _ ∧ _))

/-- `PhysMap::lookup`, or `none` where its arithmetic overflows: the end of
any region the search looks at, the end of the run, and the offset into the
run. -/
def lookupOrPanic (s : AddressSpace) (gpa len : Nat) : Option (Option SubMapping) :=
  match checkedAdd gpa len with
  | none => some none
  | some stop =>
    if s.regions.any fun r => 2 ^ 64 ≤ r.stop then none
    else match AddressSpace.regionAt s.regions gpa with
      | none => some none
      | some region =>
        let run := region.tracked
        if 2 ^ 64 ≤ run.stop then none
        else if stop > run.stop then some none
        else if gpa < run.gpa then none
        else some (((SubMapping.new run.mapping).subregion
          (gpa - run.gpa) len).map (·.restrict run.prot))

-- ==== applying a batch

/-- The first loop over the destinations. -/
def preflightLoop (s : AddressSpace) : List Nat → Option (Except MigrateError Unit)
  | [] => some (.ok ())
  | gpa :: rest =>
    (lookupOrPanic s gpa pageSize).bind fun
      | none => some (.error (pageWriteError gpa "page is not mapped"))
      | some v =>
        match GuestMem.checkWrite v 0 with
        | .error e => some (.error (pageWriteError gpa e.text))
        | .ok () => preflightLoop s rest

/-- The second loop, with the memory it leaves. -/
def writeLoop : List (Nat × List UInt8) → GuestMem → Option (Except MigrateError Unit × GuestMem)
  | [], m => some (.ok (), m)
  | (gpa, page) :: rest, m =>
    (lookupOrPanic m.space gpa page.length).bind fun
      | none =>
        some (.error (pageWriteError gpa (unmapped gpa page.length).text), m)
      | some v =>
        match GuestMem.checkWrite v page.length with
        | .error e => some (.error (pageWriteError gpa e.text), m)
        | .ok () =>
          writeLoop rest { m with bytes := poke m.bytes gpa page }

/-- The checks of `apply_page_batch` that do not look at memory: the bytes of
the batch and the places they go to. -/
def openBatch (out : Outside) (baseGpa pageCount flags : Nat)
    (data : List UInt8) (sparse : Option (List Nat)) :
    Except MigrateError (List UInt8 × List Nat) := do
  checkBatch pageCount flags
  let raw ← batchBytes out flags data (pageCount * pageSize)
  let gpas ← batchGpas baseGpa pageCount sparse
  return (raw, gpas)

/-- `apply_page_batch`: its result and the memory after it, or `none` where
it would panic. -/
def applyBatch (out : Outside) (m : GuestMem) (baseGpa pageCount flags : Nat)
    (data : List UInt8) (sparse : Option (List Nat)) :
    Option (Except MigrateError Unit × GuestMem) :=
  match openBatch out baseGpa pageCount flags data sparse with
  | .error e => some (.error e, m)
  | .ok (raw, gpas) =>
    (preflightLoop m.space gpas).bind fun
      | .error e => some (.error e, m)
      | .ok () => writeLoop (gpas.zip (pageChunks raw)) m

-- ==== the site

/-- What the destination will be told, its memory, and what it has done. -/
structure Site where
  /-- what each receive gives, until the stream ends -/
  frames : List (Except MigrateError (List UInt8))
  /-- how the `n`-th call that may be refused goes -/
  replies : Nat → Except String Unit
  /-- this VM has the Hyper-V enlightenments -/
  hyperv : Bool
  mem : GuestMem
  made : List Session.Op

namespace Site

/-- A call is made. -/
def note (s : Site) (o : Session.Op) : Site := { s with made := s.made ++ [o] }

/-- A call that can be refused is made. -/
def try_ (s : Site) (o : Session.Op) : Except String Unit × Site :=
  (s.replies s.made.length, s.note o)

/-- The next frame, or the end of the stream. -/
def next (s : Site) : Except MigrateError (List UInt8) × Site :=
  match s.frames with
  | [] => (.error (.webSocket "connection closed"), s)
  | f :: rest => (f, { s with frames := rest })

/-- A batch goes into this VM's memory. -/
def applied (out : Outside) (s : Site) (base count flags : Nat)
    (data : List UInt8) (sparse : Option (List Nat)) :
    Except MigrateError Unit × Site :=
  match applyPageBatch out s.mem base count flags data sparse with
  | .ok m => (.ok (), { s with mem := m })
  | .error e => (.error e, s)

/-- The meaning of the destination's operations. The source's are never
issued here. -/
def answer (out : Outside) : Handler Session.Op Session.Ans Site
  | .recv, s => s.next
  | .send f, s => s.try_ (.send f)
  | .applyBatch base count flags data sparse, s =>
    s.applied out base count flags data sparse
  | .hook h, s => s.try_ (.hook h)
  | .pause, s => s.try_ .pause
  | .resume, s => s.try_ .resume
  | .stateCall c, s =>
    let (r, s') := s.try_ (.stateCall c)
    (r.mapError .state, s')
  | .hypervRestore h, s => (s.hyperv, s.note (.hypervRestore h))
  | .resumeDevices, s => ((), s.note .resumeDevices)
  | .setPhase p, s => ((), s.note (.setPhase p))
  | .getPhase, s => (.sync, s)
  | .regions, s => ([], s)
  | .memRead _, s => (.error "", s)
  | .trackChunk _, s => (.error "", s)
  | .exportTimeData, s => (.ok ⟨[]⟩, s)
  | .exportDeviceState, s => (.ok [], s)
  | .exportDevices, s => (.ok [], s)
  | .hypervExport, s => (none, s)

end Site

end Rshyve.Migrate
