/-
# A migration session

The source and the destination as two threads over one connection, with the
guest of the source running beside them. The programs are `runSource` and
`runDestination`; this module gives their calls a meaning.

# What the world can do

- A send delivers its frame and succeeds, or fails with the frame
  undelivered, or fails *and* delivers it: the transport reports an error
  after the bytes have left.
- The connection can be cut at any time. A cut keeps some prefix of what is
  in flight in each direction, and nothing sent later arrives, although a
  send may still report success.
- A receive takes the oldest frame in flight, or fails at any time: a
  deadline, a closed stream, a frame that is not binary.
- The guest of the source writes its memory whenever its vCPUs run. A write
  makes the pages it touches dirty. A page read that races a write returns
  any bytes; the race has left the page dirty.
- The kernel reports at least the dirty pages of a chunk and clears them.
- Every call into the kernel or a device hook can be refused.

`srcPaused`, `goAhead` and `ramAtPause` are history: the source has paused
its vCPUs at least once, the source's go-ahead has reached the wire, and the
source's memory when it paused. No program reads them.
-/
import Rshyve.Conc.Pool
import Rshyve.Migrate.Destination

namespace Rshyve.Migrate.Session

open Conc
open Mem (pageSize GuestMem RegionKind DirtyChunk poke peek)

-- ==== the operations

/-- Device and stream hooks that report `Result<(), E>` with a text. -/
inductive Hook where
  | setReadDeadline
  | prePause
  | flush
  | restoreDevice (bdf : WireBdf) (state : List UInt8)
  deriving DecidableEq, Repr

/-- Calls that report a migration error of their own. -/
inductive StateCall where
  | zfsBarrier
  | importTimeData (t : TimeData)
  | importDeviceState (d : DeviceState)
  deriving DecidableEq, Repr

/-- The atomic operations of both programs. -/
inductive Op where
  | setPhase (p : MigrationPhase)
  | getPhase
  | send (frame : List UInt8)
  | recv
  | regions
  | memRead (gpa : Nat)
  | trackChunk (c : DirtyChunk)
  | applyBatch (base count flags : Nat) (data : List UInt8) (sparse : Option (List Nat))
  | pause
  | resume
  | hook (h : Hook)
  | stateCall (c : StateCall)
  | exportTimeData
  | exportDeviceState
  | exportDevices
  | hypervExport
  | hypervRestore (h : List UInt8)
  | resumeDevices
  deriving DecidableEq, Repr

@[reducible] def Ans : Op → Type
  | .setPhase _ | .resumeDevices => Unit
  | .getPhase => MigrationPhase
  | .send _ | .pause | .resume | .hook _ => Except String Unit
  | .recv => Except MigrateError (List UInt8)
  | .regions => List (Nat × Nat × RegionKind)
  | .memRead _ | .trackChunk _ => Except String (List UInt8)
  | .applyBatch .. | .stateCall _ => Except MigrateError Unit
  | .exportTimeData => Except MigrateError TimeData
  | .exportDeviceState => Except MigrateError (List UInt8)
  | .exportDevices => Except String (List DeviceStatePayload)
  | .hypervExport => Option (List UInt8)
  | .hypervRestore _ => Bool

abbrev Prog := Proc Op Ans

/-- One operation as a program. -/
abbrev call (o : Op) : Prog (Ans o) := Proc.call o

/-- The source's calls as operations. -/
@[simps] def sourceIo : SourceIo Prog where
  setPhase p := call (.setPhase p)
  getPhase := call .getPhase
  sendFrame f := call (.send f)
  recvFrame := call .recv
  setReadDeadline := call (.hook .setReadDeadline)
  regions := call .regions
  memRead gpa := call (.memRead gpa)
  trackChunk c := call (.trackChunk c)
  hdlPause := call .pause
  hdlResume := call .resume
  exportTimeData := call .exportTimeData
  exportDeviceState := call .exportDeviceState
  zfsBarrierWait := call (.stateCall .zfsBarrier)
  prePause := call (.hook .prePause)
  flush := call (.hook .flush)
  exportDevices := call .exportDevices
  resumeDevices := call .resumeDevices
  hypervExport := call .hypervExport

/-- The destination's calls as operations. -/
@[simps] def destIo : DestIo Prog where
  loop := Proc.loop
  setPhase p := call (.setPhase p)
  sendFrame f := call (.send f)
  recvFrame := call .recv
  setReadDeadline := call (.hook .setReadDeadline)
  applyBatch base count flags data sparse :=
    call (.applyBatch base count flags data sparse)
  hdlPause := call .pause
  hdlResume := call .resume
  importTimeData t := call (.stateCall (.importTimeData t))
  importDeviceState d := call (.stateCall (.importDeviceState d))
  restoreDevice bdf st := call (.hook (.restoreDevice bdf st))
  hypervRestore h := call (.hypervRestore h)
  resumeDevices := call .resumeDevices

-- ==== the world

structure World where
  srcPhase : MigrationPhase
  dstPhase : MigrationPhase
  toDst : List (List UInt8)
  toSrc : List (List UInt8)
  cut : Bool
  srcRunning : Bool
  srcPaused : Bool
  dstStarted : Bool
  goAhead : Bool
  srcMem : GuestMem
  dstMem : GuestMem
  /-- dirty pages of the source, by page number -/
  dirty : Nat → Bool
  ramAtPause : Option (Nat → UInt8)

/-- The outside world's choice for one operation. -/
inductive Choice where
  /-- the call does what it says -/
  | go
  | refuse (e : String)
  | fail (e : MigrateError)
  /-- the frame is delivered and the send still fails -/
  | sentErr (e : String)
  /-- the bytes of a page read that races the guest -/
  | torn (page : List UInt8)
  /-- the dirty bits the kernel reports -/
  | bits (b : List UInt8)
  | time (t : TimeData)
  | blob (b : List UInt8)
  | payloads (p : List DeviceStatePayload)
  | hyperv (h : Option (List UInt8))
  | known (b : Bool)

/-- The frame went out although the send failed. -/
def Choice.isSentErr : Choice → Bool
  | .sentErr _ => true
  | _ => false

/-- The source is thread 0, the destination thread 1. -/
def srcTid : Nat := 0
def dstTid : Nat := 1

section

variable (out : Outside)

/-- Put a frame on the wire. -/
def deliver (t : Nat) (f : List UInt8) (w : World) : World :=
  if w.cut then w
  else if t = srcTid then
    { w with
      toDst := w.toDst ++ [f]
      goAhead := w.goAhead || f == encode out .okay }
  else { w with toSrc := w.toSrc ++ [f] }

/-- Take the oldest frame in flight. -/
def takeFrame (t : Nat) (w : World) : Option (List UInt8 × World) :=
  if t = srcTid then
    match w.toSrc with
    | [] => none
    | f :: rest => some (f, { w with toSrc := rest })
  else
    match w.toDst with
    | [] => none
    | f :: rest => some (f, { w with toDst := rest })

/-- The bits name every dirty page of the chunk. -/
def reports (dirty : Nat → Bool) (c : DirtyChunk) (bits : List UInt8) : Bool :=
  bits.length == c.bitLen && (List.range (c.len / pageSize)).all fun i =>
      !dirty (c.gpa / pageSize + i) || bitSet bits i

/-- The pages of a chunk are clean again. -/
def cleared (dirty : Nat → Bool) (c : DirtyChunk) : Nat → Bool :=
  fun p => dirty p && !(c.gpa / pageSize ≤ p && p < c.gpa / pageSize + c.len / pageSize)

/-- A call that is refused with a text, or succeeds with `w`. -/
def orRefuse (c : Choice) (w w' : World) : Option (Except String Unit × World) :=
  match c with
  | .go => some (.ok (), w')
  | .refuse e => some (.error e, w)
  | _ => none

/-- The VM of thread `t` stops its vCPUs. -/
def pauseVm (t : Nat) (w : World) : World :=
  if t = srcTid then
    { w with
      srcRunning := false
      srcPaused := true
      ramAtPause := some w.srcMem.bytes }
  else w

/-- The VM of thread `t` runs its vCPUs. -/
def resumeVm (t : Nat) (w : World) : World :=
  if t = srcTid then { w with srcRunning := true }
  else { w with dstStarted := true }

/-- A frame out. -/
def sendFrame (t : Nat) (c : Choice) (f : List UInt8) (w : World) :
    Option (Except String Unit × World) :=
  match c with
  | .go => some (.ok (), deliver out t f w)
  | .refuse e => some (.error e, w)
  | .sentErr e => some (.error e, deliver out t f w)
  | _ => none

/-- A frame in. -/
def recvFrame (t : Nat) (c : Choice) (w : World) :
    Option (Except MigrateError (List UInt8) × World) :=
  match c with
  | .go => (takeFrame t w).map fun (f, w') => (.ok f, w')
  | .fail e => some (.error e, w)
  | _ => none

/-- One page of the source, read beside a guest that may be writing it. -/
def readPage (c : Choice) (gpa : Nat) (w : World) : Option (Except String (List UInt8)) :=
  match GuestMem.readable w.srcMem.space gpa pageSize with
  | .error e => some (.error e.text)
  | .ok () =>
    match c with
    | .go => some (.ok (peek w.srcMem.bytes gpa pageSize))
    | .torn page =>
      if page.length = pageSize ∧ w.dirty (gpa / pageSize) then
        some (.ok page)
      else none
    | _ => none

/-- Read and clear the dirty bits of one chunk. -/
def trackBits (c : Choice) (ch : DirtyChunk) (w : World) :
    Option (Except String (List UInt8) × World) :=
  match c with
  | .refuse e => some (.error e, w)
  | .bits b =>
    if reports w.dirty ch b then
      some (.ok b, { w with dirty := cleared w.dirty ch })
    else none
  | _ => none

/-- Put a batch into the destination's memory. -/
def applyTo (base count flags : Nat) (data : List UInt8) (sparse : Option (List Nat)) (w : World) :
    Except MigrateError Unit × World :=
  match applyPageBatch out w.dstMem base count flags data sparse with
  | .ok m => (.ok (), { w with dstMem := m })
  | .error e => (.error e, w)

/-- The meaning of an operation. -/
def exec (t : Nat) (c : Choice) : (o : Op) → World → Option (Ans o × World)
  | .setPhase p, w =>
    some ((), if t = srcTid then { w with srcPhase := p }
      else { w with dstPhase := p })
  | .getPhase, w => some (if t = srcTid then w.srcPhase else w.dstPhase, w)
  | .send f, w => sendFrame out t c f w
  | .recv, w => recvFrame t c w
  | .regions, w => some (w.srcMem.regions, w)
  | .memRead gpa, w => (readPage c gpa w).map fun a => (a, w)
  | .trackChunk ch, w => trackBits c ch w
  | .applyBatch base count flags data sparse, w =>
    some (applyTo out base count flags data sparse w)
  | .pause, w => orRefuse c w (pauseVm t w)
  | .resume, w => orRefuse c w (resumeVm t w)
  | .hook _, w => orRefuse c w w
  | .stateCall _, w =>
    match c with
    | .go => some (.ok (), w)
    | .fail e => some (.error e, w)
    | _ => none
  | .exportTimeData, w =>
    match c with
    | .time d => some (.ok d, w)
    | .fail e => some (.error e, w)
    | _ => none
  | .exportDeviceState, w =>
    match c with
    | .blob d => some (.ok d, w)
    | .fail e => some (.error e, w)
    | _ => none
  | .exportDevices, w =>
    match c with
    | .payloads d => some (.ok d, w)
    | .refuse e => some (.error e, w)
    | _ => none
  | .hypervExport, w =>
    match c with
    | .hyperv h => some (h, w)
    | _ => none
  | .hypervRestore _, w =>
    match c with
    | .known b => some (b, w)
    | _ => none
  | .resumeDevices, w => some ((), w)

-- ==== what a call can do

variable {out} {t : Nat} {c : Choice} {w w' : World}

variable {a : Except String Unit}

theorem sendFrame_cases {f : List UInt8} (h : sendFrame out t c f w = some (a, w')) :
    (a = .ok () ∧ w' = deliver out t f w) ∨
    (∃ e, a = .error e ∧ w' = w) ∨
    (∃ e, c = .sentErr e ∧ a = .error e ∧ w' = deliver out t f w) := by
  unfold sendFrame at h
  split at h
  · cases h
    exact .inl ⟨rfl, rfl⟩
  · cases h
    exact .inr (.inl ⟨_, rfl, rfl⟩)
  · cases h
    exact .inr (.inr ⟨_, rfl, rfl, rfl⟩)
  · cases h

theorem recvFrame_cases {a : Except MigrateError (List UInt8)}
    (h : recvFrame t c w = some (a, w')) :
    (∃ f, a = .ok f ∧ takeFrame t w = some (f, w')) ∨
    (∃ e, a = .error e ∧ w' = w) := by
  unfold recvFrame at h
  split at h
  · obtain ⟨⟨f, v⟩, hf, hv⟩ := Option.map_eq_some_iff.mp h
    cases hv
    exact .inl ⟨f, rfl, hf⟩
  · cases h
    exact .inr ⟨_, rfl, rfl⟩
  · cases h

theorem orRefuse_cases {v : World} (h : orRefuse c w v = some (a, w')) :
    (a = .ok () ∧ w' = v) ∨ (∃ e, a = .error e ∧ w' = w) := by
  unfold orRefuse at h
  split at h
  · cases h
    exact .inl ⟨rfl, rfl⟩
  · cases h
    exact .inr ⟨_, rfl, rfl⟩
  · cases h

theorem trackBits_cases {ch : DirtyChunk}
    {a : Except String (List UInt8)} (h : trackBits c ch w = some (a, w')) :
    (∃ b, a = .ok b ∧ reports w.dirty ch b = true ∧ w' = { w with dirty := cleared w.dirty ch }) ∨
    (∃ e, a = .error e ∧ w' = w) := by
  unfold trackBits at h
  split at h
  · cases h
    exact .inr ⟨_, rfl, rfl⟩
  · split at h
    next hr =>
      cases h
      exact .inl ⟨_, rfl, hr, rfl⟩
    · cases h
  · cases h

/-- The calls that leave the world as it is. -/
def Op.isIdle : Op → Bool
  | .setPhase _ | .send _ | .recv | .pause | .resume | .trackChunk _
  | .applyBatch .. => false
  | _ => true

theorem exec_idle {o : Op} {a : Ans o} (ho : o.isIdle = true)
    (h : exec out t c o w = some (a, w')) : w' = w := by
  cases o with
  | setPhase p => cases ho
  | send f => cases ho
  | recv => cases ho
  | pause => cases ho
  | resume => cases ho
  | trackChunk ch => cases ho
  | applyBatch base count flags data sparse => cases ho
  | getPhase =>
    cases h
    rfl
  | regions =>
    cases h
    rfl
  | resumeDevices =>
    cases h
    rfl
  | memRead gpa =>
    have h : (readPage c gpa w).map (fun a => (a, w)) = some (a, w') := h
    obtain ⟨r, -, hr⟩ := Option.map_eq_some_iff.mp h
    cases hr
    rfl
  | hook k =>
    rcases orRefuse_cases h with ⟨-, rfl⟩ | ⟨e, -, rfl⟩
    · rfl
    · rfl
  | stateCall k => cases c <;> cases h <;> rfl
  | exportTimeData => cases c <;> cases h <;> rfl
  | exportDeviceState => cases c <;> cases h <;> rfl
  | exportDevices => cases c <;> cases h <;> rfl
  | hypervExport => cases c <;> cases h; rfl
  | hypervRestore k => cases c <;> cases h; rfl

-- ==== the environment

variable (out)

inductive Env where
  /-- the connection is lost; so many frames still arrive in each direction -/
  | cut (toDst toSrc : Nat)
  /-- the guest of the source, or a device of it, writes memory -/
  | guestWrite (a : Nat) (data : List UInt8)

/-- A write of `len` bytes at `a` touches page `p`. -/
def touches (a len p : Nat) : Bool :=
  p * pageSize < a + len && a < (p + 1) * pageSize

def envWorld : Env → World → Option World
  | .cut n m, w =>
    some { w with
      cut := true
      toDst := w.toDst.take n
      toSrc := w.toSrc.take m }
  | .guestWrite a data, w =>
    if w.srcRunning then
      some { w with
        srcMem := { w.srcMem with bytes := poke w.srcMem.bytes a data }
        dirty := fun p => w.dirty p || touches a data.length p }
    else none

/-- The session as a system of threads. -/
def system : System Op Ans World Choice Env where
  exec := exec out
  env e s := (envWorld e s.sh).map fun w => { s with sh := w }

/-- What a session starts from. -/
structure Setup where
  source : SourceConfig
  dest : DestConfig
  srcMem : GuestMem
  dstMem : GuestMem
  dirty : Nat → Bool

/-- Both programs at their start, the source's guest running. -/
def start (cfg : Setup) : Pool Op Ans World where
  sh :=
    { srcPhase := .sync
      dstPhase := .sync
      toDst := []
      toSrc := []
      cut := false
      srcRunning := true
      srcPaused := false
      dstStarted := false
      goAhead := false
      srcMem := cfg.srcMem
      dstMem := cfg.dstMem
      dirty := cfg.dirty
      ramAtPause := none }
  thr t :=
    if t = srcTid then
      (runSource out sourceIo cfg.source).bind fun _ => .ret ()
    else if t = dstTid then
      (runDestination out destIo cfg.dest).bind fun _ => .ret ()
    else .ret ()

end

-- ==== the smallest session

/-- The bytes of an ASCII text. -/
def ascii (s : String) : List UInt8 :=
  s.toList.map fun c => UInt8.ofNat c.toNat

/-- A RON codec as it acts on the one value a session uses. -/
def ronOf {α : Type} [DecidableEq α] (v : α) (text : String) : Ron α where
  ser x := if x = v then .ok (ascii text) else .error ""
  de d := if d = ascii text then .ok v else .error (.ron "")

/-- RON as it acts on the messages of a VM with no memory and no devices. -/
def bareOutside : Outside where
  offer := ronOf ⟨[protocolRon]⟩ "(protocols:[\"vmm-migrate-ron/2\"])"
  select := ronOf ⟨protocolRon⟩ "(protocol:\"vmm-migrate-ron/2\")"
  preamble := ronOf ⟨1, 0, [], some ⟨0, 0, 0, 0, 0, 0⟩⟩
    ("(num_cpus:1,mem_size:0,devices:[],cpu_features:Some((leaf1_ecx:0," ++
      "leaf1_edx:0,leaf7_ebx:0,leaf7_ecx:0,leaf7_edx:0,xcr0:0)))")
  time := ronOf ⟨[]⟩ "(vmm_time:[])"
  device := ronOf ⟨[], [], none⟩ "(vcpus:[],devices:[],emulated:[],hyperv:None)"
  gpas := ronOf [] "[]"
  error := ronOf (.io "") "Io(\"\")"
  compress _ := none
  decompress _ _ := .error ""
  escapeDebug s := s.toList
  debug s := s

/-- A VM with one vCPU, no memory and no devices, on both ends. -/
def bareSetup : Setup where
  source := ⟨1, 0, ⟨0, 0, 0, 0, 0, 0⟩, [], false⟩
  dest := ⟨1, 0, ⟨0, 0, 0, 0, 0, 0⟩, [], false⟩
  srcMem := ⟨⟨[]⟩, fun _ => 0⟩
  dstMem := ⟨⟨[]⟩, fun _ => 0⟩
  dirty _ := false

/-- So many calls of one thread that all succeed. -/
def calls (t n : Nat) : List (Act Choice Env) :=
  List.replicate n (.run t .go)

/-- The bare session up to the source's go-ahead. -/
def bareRun : List (Act Choice Env) :=
  -- negotiation, and an empty first pass
  calls 0 2 ++ calls 1 3 ++ calls 0 2 ++ calls 1 2 ++ calls 0 4 ++
  calls 1 4 ++ calls 0 3 ++
  -- the dirty pass, the pause and the last pass
  calls 1 3 ++ calls 0 7 ++ [.run 0 (.hyperv none)] ++ calls 0 3 ++
  calls 1 8 ++ calls 0 2 ++
  -- time, kernel state, devices
  [.run 0 (.time ⟨[]⟩)] ++ calls 0 2 ++
  [.run 0 (.blob []), .run 0 (.payloads [])] ++ calls 0 4 ++ calls 1 10 ++
  calls 0 1

end Rshyve.Migrate.Session
