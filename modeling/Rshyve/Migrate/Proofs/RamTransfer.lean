/-
# The guest's memory arrives

The source program from its negotiation to its end, under the rules of
`Migrate.Proofs.Ram`. The negotiation ends with the destination's first
`Okay`; the full pass leaves no page of RAM to be sent and every dirty pass
keeps it so; the pause makes the dirty bits final; the answer to the last
pass seals the transfer, and nothing after it undoes the seal.

The result is `ram_transferred`: a source that has come as far as its
machine state has a destination whose RAM is the source's at the pause.
-/
import Rshyve.Migrate.Proofs.RamPasses

namespace Rshyve.Migrate.Session

open Conc Discipline
open Mem (pageSize GuestMem RegionKind)

variable {out : Outside} {R : List (Nat × Nat × RegionKind)} {cfg : SourceConfig}

/-- Some local state of the source. -/
def AtSource (l : Party) : Prop := ∃ s, l = .src s

-- ==== the negotiation

variable {α : Type} {p : MigrationPhase}

theorem keeps_earlyPhase {s : Src} (hp : ¬ MigrationPhase.timeData.toNat ≤ p.toNat)
    {f : Unit → ExceptT MigrateError Prog α}
    {Q : Party → Except MigrateError α → Prop}
    (h : (ramRules out R).Keeps (f ()).run Q (.src s)) :
    (ramRules out R).Keeps (ExceptT.lift (sourceIo.setPhase p) >>= f).run Q (.src s) :=
  ⟨fun hle => absurd hle hp, fun _ _ => h⟩

theorem keeps_sendSync {ron : Ron α} {v : α} :
    (ramRules out R).Keeps (chanSendSerialized out ron sourceIo.sendFrame v).run
      (OrErr fun l _ => l = .src Src.start) (.src Src.start) := by
  refine Keeps.ofExcept (fun _ _ => ⟨_, rfl⟩) fun m hm => ?_
  obtain ⟨d, -, rfl⟩ := serialized_eq_ok.mp hm
  refine keeps_attempt ⟨⟨d, decode_encode (.serialized d)⟩, fun a _ => ?_⟩
  cases a with
  | error e => exact ⟨_, rfl⟩
  | ok _ => rfl

/-- A frame that decodes as anything but `Okay` leaves the negotiation where
it is. -/
theorem received_start {f : List UInt8} {m : Message} (hm : decode out f = .ok m) :
    Src.start.received out f =
      if m.tag = 0 then { Src.start with stage := .live } else Src.start := by
  show (if f.getLast? = some 0 then _ else _) = _
  rw [getLast_of_decode hm]
  simp

theorem keeps_expectSelect {ron : Ron α} : (ramRules out R).Keeps
      (chanExpectSerialized out ron sourceIo.recvFrame).run
      (OrErr fun l _ => l = .src Src.start) (.src Src.start) := by
  refine Keeps.andThen (keeps_chanRecv ⟨.inl rfl, fun r _ => ?_⟩)
  cases r with
  | error e => exact ⟨_, rfl⟩
  | ok f =>
    rw [keeps_ret]
    dsimp only
    cases hmsg : decode out f with
    | error e => exact ⟨_, rfl⟩
    | ok msg =>
      rw [try_ok]
      refine Keeps.ofExcept (fun _ _ => ⟨_, rfl⟩) fun d hd => ?_
      obtain rfl : msg = .serialized d := by
        cases msg <;> cases hd
        rfl
      show OrErr (fun l _ => l = .src Src.start)
        (Party.src (Src.start.received out f)) (deserialize ron d)
      rw [received_start hmsg]
      cases deserialize ron d with
      | error e => exact ⟨_, rfl⟩
      | ok v => rfl

/-- The end of the negotiation opens the passes: every page is still to be
sent. -/
theorem keeps_expectReady : (ramRules out R).Keeps (chanExpectOkay out sourceIo.recvFrame).run
      (OrErr fun l _ => l = between .before false (fun _ => True) (fun _ => False))
      (.src Src.start) := by
  refine Keeps.andThen (keeps_chanRecv ⟨.inl rfl, fun r _ => ?_⟩)
  cases r with
  | error e => exact ⟨_, rfl⟩
  | ok f =>
    rw [keeps_ret]
    dsimp only
    cases hmsg : decode out f with
    | error e => exact ⟨_, rfl⟩
    | ok msg =>
      cases msg with
      | okay =>
        show Party.src (Src.start.received out f) = _
        rw [received_start hmsg]
        rfl
      | _ => exact ⟨_, rfl⟩

theorem keeps_sourceSync_ram : (ramRules out R).Keeps (sourceSync out sourceIo cfg).run
      (OrErr fun l _ => l = between .before false (fun _ => True) (fun _ => False))
      (.src Src.start) := by
  refine keeps_earlyPhase (by decide) ?_
  refine keeps_sendSync.tryThen (fun _ _ h => h) ?_
  rintro l _ rfl
  refine keeps_expectSelect.tryThen (fun _ _ h => h) ?_
  rintro l sel rfl
  refine Keeps.ofExcept (fun _ _ => ⟨_, rfl⟩) fun _ _ => ?_
  refine keeps_sendSync.tryThen (fun _ _ h => h) ?_
  rintro l _ rfl
  exact keeps_expectReady

-- ==== the passes

/-- Between the passes with no page of RAM to be sent. -/
def Caught (R : List (Nat × Nat × RegionKind)) (leg : Leg) (paused : Bool) (l : Party) : Prop :=
  ∃ P C, l = between leg paused P C ∧ ∀ a, InRam R a → ¬ P (a / pageSize)

theorem keeps_sourcePreCopy_ram (hout : Faithful out) {P C : Nat → Prop} :
    (ramRules out R).Keeps (sourcePreCopy out sourceIo).run
      (OrErr fun l _ => Caught R .last false l)
      (between .before false P C) := by
  refine keeps_earlyPhase (by decide) ?_
  refine (keeps_pushRamAll hout).tryThen (fun _ _ h => h) ?_
  rintro l _ ⟨P, C, rfl, hP⟩
  refine (keeps_converge hout hP 5).tryThen (fun _ _ h => h) ?_
  rintro l _ ⟨P, C, rfl, hP⟩
  refine keeps_sendLive rfl (decode_encode .pauseSignal) 
    ⟨(by decide : Leg.before ≠ .past), rfl⟩ (fun _ => ⟨_, rfl⟩) ?_
  exact ⟨P, C, rfl, hP⟩

/-- The calls of the pause that have nothing to do with memory. -/
@[simp] def Idle : Op → Prop
  | .hook _ | .stateCall _ | .hypervExport => True
  | _ => False

theorem keeps_sourcePause_ram {l : Party} (hl : Caught R .last false l) :
    (ramRules out R).Keeps (sourcePause sourceIo cfg).run
      (OrErr fun l _ => Caught R .last true l) l := by
  have hidle {s : Src} (o : Op) (ho : Idle o) :
      (ramRules out R).Stays (· = .src s) (call o) := by
    rintro l rfl
    cases o with
    | hook | stateCall | hypervExport => exact ⟨trivial, fun _ _ => rfl⟩
    | _ => exact ho.elim
  obtain ⟨P, C, rfl, hP⟩ := hl
  refine keeps_earlyPhase (by decide) ?_
  refine Keeps.after (stays_only (by simp [attempt_run]) hidle)
    (fun _ => ⟨_, rfl⟩) fun _ => ?_
  refine Keeps.after (stays_only (by simp [attempt_run]) hidle)
    (fun _ => ⟨_, rfl⟩) fun _ => ?_
  refine Keeps.andThen (keeps_attempt ⟨rfl, fun r _ => ?_⟩)
  cases r with
  | error e => exact ⟨_, rfl⟩
  | ok _ =>
    refine Keeps.after (stays_only (by simp [attempt_run]) hidle)
      (fun _ => ⟨_, rfl⟩) fun _ => ?_
    refine Keeps.after (stays_only (by simp [zfsBarrier, attemptE]) hidle)
      (fun _ => ⟨_, rfl⟩) fun _ => ?_
    exact ⟨trivial, fun _ _ => ⟨P, _, rfl, hP⟩⟩

-- ==== past the passes

/-- The calls of the machine state and of the hand-over. -/
@[simp] def Sealing : Op → Prop
  | .setPhase _ | .send _ | .recv | .exportTimeData | .exportDeviceState
  | .exportDevices => True
  | _ => False

theorem stays_sealing (o : Op) (ho : Sealing o) :
    (ramRules out R).Stays Sealed (call o) := by
  rintro l ⟨s, rfl, hs⟩
  cases o with
  | setPhase p => exact ⟨fun _ => hs, fun _ _ => ⟨s, rfl, hs⟩⟩
  | send f =>
    refine ⟨by simp [ramRules, ramAllow, hs], fun a _ => ⟨s, ?_, hs⟩⟩
    cases a <;> simp [ramRules, ramNext, Src.fail, hs]
  | recv =>
    refine ⟨.inr (.inr hs), fun a _ => ⟨s, ?_, hs⟩⟩
    cases a <;> simp [ramRules, ramNext, Src.received, hs]
  | exportTimeData | exportDeviceState | exportDevices =>
    exact ⟨trivial, fun _ _ => ⟨s, rfl, hs⟩⟩
  | _ => exact ho.elim

theorem keeps_sourceState_ram (hout : Faithful out) {l : Party}
    (hl : Caught R .last true l) (hyperv : Option (List UInt8)) :
    (ramRules out R).Keeps (sourceState out sourceIo hyperv).run
      (OrErr fun l _ => Sealed l) l := by
  obtain ⟨P, C, rfl, hP⟩ := hl
  refine keeps_earlyPhase (by decide) ?_
  have hleg : Leg.last ≠ .past := nofun
  refine (keeps_pushRam hout hleg (fun _ => rfl) hP).tryThen (fun _ _ h => h) ?_
  rintro l _ ⟨P', C', hl, -⟩
  refine (stays_only ?_ stays_sealing).keeps hl ?_
  · simp [-ExceptT.run_bind, chanSendSerialized, chanSend, attempt_run,
      attemptE, try_iff]
  · intro l r hr
    cases r with
    | ok _ => exact hr
    | error _ =>
      obtain ⟨s, rfl, -⟩ := hr
      exact ⟨s, rfl⟩

theorem stays_sourceFinish_ram :
    (ramRules out R).Stays Sealed (sourceFinish out sourceIo).run := by
  refine stays_only ?_ stays_sealing
  simp [-ExceptT.run_bind, sourceFinish, chanExpectOkay, chanRecv, chanSend,
    attempt_run, attemptE, try_iff]

-- ==== the programs

theorem keeps_sourceInner_ram (hout : Faithful out) :
    (ramRules out R).Keeps (sourceInner out sourceIo cfg).run
      (fun l _ => AtSource l) (.src Src.start) := by
  refine keeps_sourceSync_ram.tryThen (fun _ _ h => h) ?_
  rintro l _ rfl
  refine (keeps_sourcePreCopy_ram hout).tryThen (fun _ _ h => h) ?_
  intro l _ hl
  refine (keeps_sourcePause_ram hl).tryThen (fun _ _ h => h) ?_
  intro l hyperv hl
  refine (keeps_sourceState_ram hout hl hyperv).tryThen (fun _ _ h => h) ?_
  intro l _ hl
  refine stays_sourceFinish_ram.keeps hl ?_
  rintro l _ ⟨s, rfl, -⟩
  exact ⟨s, rfl⟩

theorem keeps_runSource_ram (hout : Faithful out) :
    (ramRules out R).Keeps (runSource out sourceIo cfg) (fun _ _ => True) (.src Src.start) := by
  refine (keeps_sourceInner_ram hout).comp ?_
  rintro l result ⟨s, rfl⟩
  refine ⟨trivial, fun ph _ => ?_⟩
  show (ramRules out R).Keeps (finishSource sourceIo result ph) _ (.src s)
  unfold finishSource
  cases result with
  | ok _ => trivial
  | error e =>
    dsimp only
    split
    · exact ⟨trivial, fun _ _ => ⟨trivial, fun _ _ => trivial⟩⟩
    · trivial

theorem ram_start (hout : Faithful out) (cfg : Setup) :
    (ramOutline out cfg.srcMem.regions).Holds (start out cfg) (fun t =>
      if t = srcTid then .src Src.start
      else if t = dstTid then .dst .sync else .idle) := by
  refine ⟨⟨Src.start, .sync, [], rfl, rfl, ?_, ?_⟩, ?_⟩
  · intro t h0 h1
    show (if t = srcTid then _ else _) = _
    rw [if_neg h0, if_neg h1]
  · constructor
    case near => exact List.nil_prefix
    case whole => exact fun _ => rfl
    case regs => rfl
    case phase =>
      intro h
      have h : MigrationPhase.timeData.toNat ≤ MigrationPhase.sync.toNat := h
      exact absurd h (by decide)
    case synced => exact fun _ => .inl rfl
    case okay => exact fun f hf => (nomatch hf)
    case plain =>
      exact fun _ _ => ⟨rfl, rfl, fun _ => trivial, fun f hf => (nomatch hf)⟩
    case count => exact fun _ => Nat.le_refl 0
    case view => exact fun _ h => absurd rfl h
    case fresh => exact fun _ e he => (nomatch he)
    case paused => exact fun _ h => (nomatch h)
    case final => exact fun h => (nomatch h)
    case acked => exact fun h => (nomatch h)
    case sealed => exact fun h => (nomatch h)
  · intro t
    by_cases h0 : t = srcTid
    · subst h0
      exact Keeps.bind ((keeps_runSource_ram hout).mono fun _ _ _ => trivial)
    · by_cases h1 : t = dstTid
      · subst h1
        exact Keeps.bind (keeps_runDestination_ram.mono fun _ _ _ => trivial)
      · simp only [start, h0, h1, if_false]
        trivial

-- ==== a guest with one page

def zeroPage : List UInt8 := List.replicate 4096 0

/-- The same page after the guest has written its first byte. -/
def onePage : List UInt8 := 1 :: List.replicate 4095 0

/-- The two pages as zstd compresses them at level 1. -/
def zeroFrame : List UInt8 :=
  [40, 181, 47, 253, 96, 0, 15, 77, 0, 0, 16, 0, 0, 1, 0, 251, 247, 1, 22]
def oneFrame : List UInt8 :=
  [40, 181, 47, 253, 96, 0, 15, 77, 0, 0, 16, 1, 0, 1, 0, 251, 247, 1, 22]

/-- An address list, in unary. A session with one page never sends one. -/
def unary : List Nat → List UInt8
  | [] => []
  | n :: ns => List.replicate n 1 ++ 0 :: unary ns

/-- Reading it back, with `n` counted so far. -/
def ofUnary : Nat → List UInt8 → List Nat
  | _, [] => []
  | n, b :: bs => if b = 0 then n :: ofUnary 0 bs else ofUnary (n + 1) bs

theorem ofUnary_replicate (k n : Nat) (bs : List UInt8) :
    ofUnary n (List.replicate k 1 ++ bs) = ofUnary (n + k) bs := by
  induction k generalizing n with
  | zero => rfl
  | succ k ih =>
    rw [List.replicate_succ, List.cons_append, ofUnary, if_neg (by decide),
      ih, Nat.add_right_comm, Nat.add_assoc]

theorem ofUnary_unary (ns : List Nat) : ofUnary 0 (unary ns) = ns := by
  induction ns with
  | nil => rfl
  | cons n ns ih =>
    rw [unary, ofUnary_replicate, Nat.zero_add, ofUnary, if_pos rfl, ih]

def unaryGpas : Ron (List (BitVec 64)) where
  ser g := .ok (unary (g.map BitVec.toNat))
  de d := .ok ((ofUnary 0 d).map (BitVec.ofNat 64))

theorem unaryGpas_survives : unaryGpas.Survives := by
  refine fun g => ⟨_, rfl, congrArg Except.ok ?_⟩
  rw [ofUnary_unary, List.map_map]
  exact (List.map_congr_left fun _ _ => BitVec.ofNat_toNat ..).trans (by simp)

/-- The outside of a session of a VM with one page of memory. -/
def pageOutside : Outside :=
  { bareOutside with
    preamble := ronOf ⟨1, 4096, [], some ⟨0, 0, 0, 0, 0, 0⟩⟩
      ("(num_cpus:1,mem_size:4096,devices:[],cpu_features:Some((leaf1_ecx:0," ++
        "leaf1_edx:0,leaf7_ebx:0,leaf7_ecx:0,leaf7_edx:0,xcr0:0)))")
    gpas := unaryGpas
    compress := fun raw =>
      if raw == zeroPage then some zeroFrame
      else if raw == onePage then some oneFrame else none
    decompress := fun c n =>
      if c = zeroFrame ∧ 4096 ≤ n then .ok zeroPage
      else if c = oneFrame ∧ 4096 ≤ n then .ok onePage else .error "" }

theorem length_zeroPage : zeroPage.length = 4096 := List.length_replicate

theorem length_onePage : onePage.length = 4096 := by
  rw [onePage, List.length_cons, List.length_replicate]

theorem pageOutside_faithful : Faithful pageOutside where
  zstd raw c n hc hn := by
    have hc : (if raw == zeroPage then some zeroFrame
      else if raw == onePage then some oneFrame else none) = some c := hc
    show (if c = zeroFrame ∧ 4096 ≤ n then Except.ok zeroPage
      else if c = oneFrame ∧ 4096 ≤ n then .ok onePage else .error "") = _
    by_cases hzero : raw = zeroPage
    · rw [if_pos (beq_iff_eq.mpr hzero)] at hc
      rw [hzero, length_zeroPage] at hn
      rw [if_pos ⟨(Option.some.inj hc).symm, hn⟩, hzero]
    rw [if_neg (fun h => hzero (beq_iff_eq.mp h))] at hc
    by_cases hone : raw = onePage
    · rw [if_pos (beq_iff_eq.mpr hone)] at hc
      rw [hone, length_onePage] at hn
      have hframe := (Option.some.inj hc).symm
      have hne : ¬ (c = zeroFrame ∧ 4096 ≤ n) := by
        rw [hframe]
        exact fun h => absurd h.1 (by decide)
      rw [if_neg hne, if_pos ⟨hframe, hn⟩, hone]
    · rw [if_neg (fun h => hone (beq_iff_eq.mp h))] at hc
      cases hc
  gpas := unaryGpas_survives

/-- One page of RAM at address 0, all zero. -/
def pageMem : GuestMem where
  space :=
    ⟨[⟨0, 4096, .ram, ⟨0, ⟨0, 4096, .rw⟩, .rwx⟩, ⟨1, 4096, .rw⟩⟩]⟩
  bytes _ := 0

/-- A VM with one vCPU, one page and no devices, on both ends. -/
def pageSetup : Setup where
  source := ⟨1, 4096, ⟨0, 0, 0, 0, 0, 0⟩, [], false⟩
  dest := ⟨1, 4096, ⟨0, 0, 0, 0, 0, 0⟩, [], false⟩
  srcMem := pageMem
  dstMem := pageMem
  dirty _ := false

/-- Its session up to the machine state. The guest writes one byte after the
dirty pass, so that the last pass has a page to carry. -/
def pageRun : List (Act Choice Env) :=
  calls 0 2 ++ calls 1 3 ++ calls 0 2 ++ calls 1 4 ++
  calls 0 3 ++ [.run 0 (.bits [0])] ++ calls 0 3 ++ calls 1 6 ++
  calls 0 2 ++ [.run 0 (.bits [0])] ++ calls 0 1 ++
  [.env (.guestWrite 0 [1])] ++ calls 1 3 ++
  calls 0 7 ++ [.run 0 (.hyperv none)] ++ calls 0 2 ++
  [.run 0 (.bits [1])] ++ calls 0 3 ++ calls 1 11 ++ calls 0 2

-- ==== the transfer

/-- In every run, for all regions, guest writes, read races, cuts of the
connection and splits into batches: once the source has come to the machine
state, the destination's RAM is the source's RAM at the pause. -/
theorem ram_transferred (hout : Faithful out) (cfg : Setup)
    {s : Pool Op Ans World}
    (h : (system out).Reach System.anyStep (start out cfg) s)
    (hphase : MigrationPhase.timeData.toNat ≤ s.sh.srcPhase.toNat) :
    ∃ ram, s.sh.ramAtPause = some ram ∧
      ∀ a, InRam cfg.srcMem.regions a → s.sh.dstMem.bytes a = ram a := by
  obtain ⟨gh, hh⟩ :=
    (ramOutline out cfg.srcMem.regions).sound (ram_start hout cfg) h
  obtain ⟨src, d, wire, -, -, -, hinv⟩ := hh.1
  exact (hinv.sealed (hinv.phase hphase)).2

/-- The byte the guest wrote last has arrived. -/
theorem ram_transferred_page :
    ∃ s, (system pageOutside).Reach System.anyStep
        (start pageOutside pageSetup) s ∧
      MigrationPhase.timeData.toNat ≤ s.sh.srcPhase.toNat ∧
      s.sh.dstMem.bytes 0 = 1 := by
  obtain ⟨s, hs, hphase, hone⟩ : ∃ s, (system pageOutside).Reach System.anyStep
      (start pageOutside pageSetup) s ∧
      MigrationPhase.timeData.toNat ≤ s.sh.srcPhase.toNat ∧
      s.sh.ramAtPause.any (fun ram => ram 0 == 1) = true :=
    System.exists_reach pageRun (by decide +kernel)
  refine ⟨s, hs, hphase, ?_⟩
  obtain ⟨ram, hram, hbytes⟩ :=
    ram_transferred pageOutside_faithful pageSetup hs hphase
  rw [hram] at hone
  have hin : InRam pageSetup.srcMem.regions 0 :=
    ⟨(0, 4096, .ram), List.mem_singleton_self _, rfl, Nat.le_refl 0,
      Nat.succ_pos 4095⟩
  rw [hbytes 0 hin]
  exact eq_of_beq hone

end Rshyve.Migrate.Session
