/-
# What an attempt that failed leaves behind

The rollback resumes the devices and the vCPUs. A device whose rings the
kernel refuses to restart is logged and left. The Hyper-V pages that the
attempt took out of guest memory before its last pass are not put back: after
an attempt that fails there, the guest resumes with its hypercall MSR enabled
and its own old bytes in the page. `rollback_visible` has a run of each.

Where the attempt finds no such page, a failed attempt cannot be told from
none (`rollback_invisible`): the guest's memory and enlightenment are those
of its twin at every moment, and every device that was at work is at work
again before the vCPUs are, but for those that were left. What carries it is
`Stage`, the phase the source has recorded and whether it has stopped the
devices since it last resumed them. A source only ever returns with the
devices stopped once it has committed (`keeps_runSource`).
-/
import Rshyve.Migrate.Proofs.Quiet
import Rshyve.Migrate.Rollback

namespace Rshyve.Migrate.Rollback

open Conc Discipline
open Hyperv (Features)
open Session (Op Ans sourceIo Prog Quiet attempt_run only_chanExpectOkay
  only_confirm quiet_sourceSync quiet_sourcePreCopy quiet_sourceState)

-- ==== one device

variable {d : Device}

namespace Device

/-- Resuming the device set gets this one to work. -/
def wakes (d : Device) : Bool :=
  d.indicator == none || d.indicator == some .pause || (d.indicator == some .run && !d.parked)

theorem wakes_of_running (h : d.running = true) : d.wakes = true := by
  obtain ⟨ind, parked, rings⟩ := d
  cases ind with
  | none => rfl
  | some s => cases s <;> cases parked <;> cases rings <;> simp_all [running, wakes]

theorem wakes_pauseOnce (h : d.wakes = true) : d.pauseOnce.wakes = true := by
  obtain ⟨ind, parked, rings⟩ := d
  cases ind with
  | none => rfl
  | some s => cases s <;> first | rfl | cases h

theorem wakes_pauseRings (h : d.wakes = true) : d.pauseRings.wakes = true := h

theorem wakes_resumed (h : d.wakes = true) : d.resumeIfPaused.wakes = true := by
  obtain ⟨ind, parked, rings⟩ := d
  cases ind with
  | none => rfl
  | some s => cases s <;> cases parked <;> first | rfl | cases h

theorem wakes_resumeRings (h : d.wakes = true) : d.resumeRings.wakes = true := h

theorem running_resumed (h : d.wakes = true) : d.resumeIfPaused.resumeRings.running = true := by
  obtain ⟨ind, parked, rings⟩ := d
  cases ind with
  | none => rfl
  | some s => cases s <;> cases parked <;> first | rfl | cases h

end Device

-- ==== the device set

/-- Every device that was at work can be woken. -/
def Host.Wakes (before : List Device) (h : Host) : Prop :=
  ∀ (i : Nat) (d : Device), before[i]? = some d → d.running = true →
    ∃ d', h.devices[i]? = some d' ∧ d'.wakes = true

/-- Every device that was at work is at work, unless its rings could not be
restarted. -/
def Host.Back (before : List Device) (h : Host) : Prop :=
  ∀ (i : Nat) (d : Device), before[i]? = some d → d.running = true →
    i ∉ h.stayed → ∃ d', h.devices[i]? = some d' ∧ d'.running = true

namespace Host

variable {before : List Device} {h : Host}

/-- However far a pause of the devices gets, resuming them undoes it. -/
theorem wakes_pauseDevices (hb : h.Wakes before) (c : Stop) :
    (h.pauseDevices c).2.Wakes before := by
  intro i d hi hd
  obtain ⟨d', hd', hw⟩ := hb i d hi hd
  have hp := Device.wakes_pauseOnce hw
  cases c with
  | all =>
    refine ⟨d'.pauseOnce.pauseRings, ?_, Device.wakes_pauseRings hp⟩
    simp [pauseDevices, hd']
  | stuck e =>
    refine ⟨d'.pauseOnce, ?_, hp⟩
    simp [pauseDevices, hd']
  | refused n e =>
    have hlen : i < h.devices.length :=
      (List.getElem?_eq_some_iff.mp hd').1
    by_cases hin : i < n
    · refine ⟨d'.pauseOnce.pauseRings, ?_, Device.wakes_pauseRings hp⟩
      simp only [pauseDevices]
      rw [List.getElem?_append_left (by simp; omega)]
      simp [hin, hd']
    · refine ⟨d'.pauseOnce, ?_, hp⟩
      simp only [pauseDevices]
      rw [List.getElem?_append_right (by simp; omega)]
      simp only [List.length_map, List.length_take, List.getElem?_drop]
      rw [show n + (i - min n h.devices.length) = i by omega]
      simp [hd']

theorem wakes_resumeDevices (hb : h.Wakes before) (refused : List Nat) :
    (h.resumeDevices refused).Wakes before := by
  intro i d hi hd
  obtain ⟨d', hd', hw⟩ := hb i d hi hd
  have hr := Device.wakes_resumed hw
  by_cases hin : i ∈ refused
  · refine ⟨d'.resumeIfPaused, ?_, hr⟩
    simp [resumeDevices, hd', hin]
  · refine ⟨d'.resumeIfPaused.resumeRings, ?_, Device.wakes_resumeRings hr⟩
    simp [resumeDevices, hd', hin]

theorem back_resumeDevices (hb : h.Wakes before) (refused : List Nat) :
    (h.resumeDevices refused).Back before := by
  intro i d hi hd hin
  obtain ⟨d', hd', hw⟩ := hb i d hi hd
  have hin : i ∉ refused := hin
  refine ⟨d'.resumeIfPaused.resumeRings, ?_, Device.running_resumed hw⟩
  simp [resumeDevices, hd', hin]

end Host

-- ==== the discipline

/-- The phase on record, and whether the devices were stopped since they
were last resumed. -/
structure Stage where
  phase : MigrationPhase
  stopped : Bool

/-- Only the source has calls to make, and it resumes the vCPUs only with
the devices back at work. -/
def mayIssue : Option Stage → Op → Prop
  | none, _ => False
  | some l, .resume => l.stopped = false
  | some _, _ => True

def after : Option Stage → (o : Op) → Ans o → Option Stage
  | some l, .setPhase p, _ => some { l with phase := p }
  | some l, .hook .prePause, _ => some { l with stopped := true }
  | some l, .resumeDevices, _ => some { l with stopped := false }
  | l, _, _ => l

def rules : Discipline Op Ans (Option Stage) where
  allow := mayIssue
  can l o a :=
    match o, a with
    | .getPhase, p => ∀ s, l = some s → p = s.phase
    | _, _ => True
  next := after

/-- A source that has returned has resumed the devices or committed. -/
def finished : Option Stage → Prop
  | none => True
  | some l =>
    l.stopped = false ∨ MigrationPhase.committed.toNat ≤ l.phase.toNat

-- ==== the condition

/-- The attempt takes no Hyper-V page out of guest memory. -/
def harmless : Act Choice Move → Pool Op Ans Host → Bool
  | .env _, _ => true
  | .run t _, s =>
    match (s.thr t).head? with
    | some .hypervExport => s.sh.guest.hyperv.all Hyperv.Inner.bare
    | _ => true

-- ==== the invariant

structure Unseen (before : List Device) (h : Host)
    (gh : Nat → Option Stage) : Prop where
  guest : h.guest = h.twin
  source : ∃ l, gh 0 = some l ∧ h.phase = l.phase ∧
    h.Wakes before ∧ (l.stopped = false → h.Back before)
  rest : ∀ t, t ≠ 0 → gh t = none

variable {before : List Device} {gh : Nat → Option Stage}

/-- A call of the source that leaves the guest alone, with the stage it
leaves. -/
theorem Unseen.moved {h h' : Host} (hu : Unseen before h gh) {l : Stage}
    (hg : h'.guest = h.guest) (ht : h'.twin = h.twin)
    (hp : h'.phase = l.phase) (hw : h'.Wakes before)
    (hr : l.stopped = false → h'.Back before) :
    Unseen before h' (Function.update gh 0 (some l)) := by
  refine ⟨by rw [hg, ht, hu.guest], ⟨l, by simp, hp, hw, hr⟩, ?_⟩
  intro t ht0
  rw [Function.update_of_ne ht0]
  exact hu.rest t ht0

theorem exportHyperv_of_bare {h : Host} {p : List UInt8}
    (hb : h.guest.hyperv.all Hyperv.Inner.bare = true) :
    (h.exportHyperv p).2 = h := by
  unfold Host.exportHyperv
  cases hv : h.guest.hyperv with
  | none => rfl
  | some i =>
    rw [hv] at hb
    have hi : i.bare = true := hb
    obtain ⟨⟨mem, hyp⟩, ds, ph, vp, tw, st⟩ := h
    simp only at hv
    subst hv
    simp only [Hyperv.Inner.pauseOverlays_of_bare _ hi]

theorem unseen_call {s : Pool Op Ans Host} {c : Choice}
    {o : Op} {k : Ans o → Prog Unit} {a : Ans o} {h' : Host} (hthr : s.thr 0 = .op o k)
    (hok : harmless (.run 0 c) s = true) (hu : Unseen before s.sh gh)
    (hex : s.sh.exec c o = some (a, h')) :
    rules.can (gh 0) o a ∧ Unseen before h' (Function.update gh 0 (after (gh 0) o a)) := by
  obtain ⟨l, hl, hph, hw, hr⟩ := hu.source
  simp only [harmless, hthr, Proc.head?] at hok
  rw [hl]
  cases o with
  | setPhase p =>
    cases hex
    exact ⟨trivial, hu.moved rfl rfl rfl hw hr⟩
  | getPhase =>
    cases hex
    refine ⟨?_, hu.moved rfl rfl hph hw hr⟩
    intro st hst
    cases hst
    exact hph
  | pause =>
    simp only [Host.exec] at hex
    split at hex
    all_goals
      cases hex
      exact ⟨trivial, hu.moved rfl rfl hph hw hr⟩
  | resume =>
    simp only [Host.exec] at hex
    split at hex
    all_goals
      cases hex
      exact ⟨trivial, hu.moved rfl rfl hph hw hr⟩
  | hook hk =>
    cases hk with
    | prePause =>
      obtain rfl : (s.sh.pauseDevices c.stop).2 = h' :=
        congrArg Prod.snd (Option.some.inj hex)
      refine ⟨trivial, ?_⟩
      refine hu.moved ?_ ?_ ?_ (Host.wakes_pauseDevices hw c.stop) (by simp)
      all_goals cases c.stop <;> first | rfl | exact hph
    | setReadDeadline =>
      cases hex
      exact ⟨trivial, hu.moved rfl rfl hph hw hr⟩
    | flush =>
      cases hex
      exact ⟨trivial, hu.moved rfl rfl hph hw hr⟩
    | restoreDevice b st => cases hex
  | resumeDevices =>
    cases hex
    exact ⟨trivial, hu.moved rfl rfl hph (Host.wakes_resumeDevices hw c.refused)
      fun _ => Host.back_resumeDevices hw c.refused⟩
  | hypervExport =>
    obtain rfl : s.sh = h' := by
      rw [← @exportHyperv_of_bare s.sh c.hyperv hok]
      exact congrArg Prod.snd (Option.some.inj hex)
    exact ⟨trivial, hu.moved rfl rfl hph hw hr⟩
  | stateCall sc =>
    cases sc with
    | zfsBarrier =>
      cases hex
      exact ⟨trivial, hu.moved rfl rfl hph hw hr⟩
    | importTimeData t => cases hex
    | importDeviceState d => cases hex
  | applyBatch => cases hex
  | hypervRestore => cases hex
  | send | recv | regions | memRead | trackChunk | exportTimeData
  | exportDeviceState | exportDevices =>
    cases hex
    exact ⟨trivial, hu.moved rfl rfl hph hw hr⟩

/-- The discipline and the invariant of an attempt. -/
def outline (f : Features) (before : List Device) :
    Outline (system f) (fun a s => harmless a s = true) (Option Stage) where
  toDiscipline := rules
  post := finished
  inv := Unseen before
  op_step := by
    intro s t c o k a h' gh hthr hok hinv hal hex
    by_cases ht : t = 0
    · subst ht
      exact unseen_call hthr hok hinv hex
    · -- no other thread has a program
      have hal : mayIssue (gh t) o := hal
      rw [hinv.rest t ht] at hal
      exact absurd hal id
  env_step := by
    intro s s' e gh _ hinv hthr henv
    obtain ⟨h', hh', rfl⟩ := Option.map_eq_some_iff.mp henv
    unfold Host.move at hh'
    split at hh'
    · cases hh'
    · cases hh'
      refine ⟨gh, ⟨?_, hinv.source, hinv.rest⟩, hthr⟩
      show s.sh.guest.move f e = s.sh.twin.move f e
      rw [hinv.guest]

-- ==== the program

/-- Before the pause: the devices are as they were. -/
def Untouched (l : Option Stage) : Prop := ∃ ph, l = some ⟨ph, false⟩

/-- Past the pause, by the phase on record. -/
def PastPause (l : Option Stage) : Prop :=
  ∃ s, l = some s ∧ MigrationPhase.pause.toNat ≤ s.phase.toNat

variable {l : Option Stage}

theorem untouched_some (h : Untouched l) : ∃ s, l = some s := by
  obtain ⟨ph, rfl⟩ := h
  exact ⟨_, rfl⟩

theorem pastPause_some (h : PastPause l) : ∃ s, l = some s := by
  obtain ⟨s, rfl, _⟩ := h
  exact ⟨s, rfl⟩

theorem stays_untouched (o : Op) (ho : Quiet 0 o) :
    rules.Stays Untouched (Session.call o) := by
  rintro l ⟨ph, rfl⟩
  cases o with
  | setPhase p => exact ⟨trivial, fun _ _ => ⟨p, rfl⟩⟩
  | send | recv | regions | memRead | trackChunk | exportTimeData
  | exportDeviceState | exportDevices => exact ⟨trivial, fun _ _ => ⟨ph, rfl⟩⟩
  | _ => exact ho.elim

/-- The calls of a source past its pause, up to a rollback. -/
@[simp] def Past : Op → Prop
  | .setPhase p => MigrationPhase.pause.toNat ≤ p.toNat
  | .resumeDevices | .resume => False
  | _ => True

theorem stays_past (o : Op) (ho : Past o) :
    rules.Stays PastPause (Session.call o) := by
  rintro l ⟨s, rfl, hs⟩
  cases o with
  | setPhase p => exact ⟨trivial, fun _ _ => ⟨_, rfl, ho⟩⟩
  | hook hk => cases hk <;> exact ⟨trivial, fun _ _ => ⟨_, rfl, hs⟩⟩
  | resumeDevices | resume => exact ho.elim
  | _ => exact ⟨trivial, fun _ _ => ⟨s, rfl, hs⟩⟩

theorem past_of_quiet (o : Op) (h : Quiet MigrationPhase.pause.toNat o) :
    Past o := by
  cases o <;> trivial

section programs

variable {out : Outside} {cfg : SourceConfig}

theorem keeps_sourcePause (hl : Untouched l) :
    rules.Keeps (sourcePause sourceIo cfg).run (fun l _ => PastPause l) l := by
  have hpast : Only Past (sourcePause sourceIo cfg).run fun _ => True := by
    simp [-ExceptT.run_bind, sourcePause, zfsBarrier, attempt_run, attemptE,
      try_iff]
  obtain ⟨ph, rfl⟩ := hl
  -- the phase comes first, and nothing after it moves it
  exact ⟨trivial, fun _ _ =>
    stays_only (hpast.2 () trivial) stays_past _ ⟨_, rfl, le_refl _⟩⟩

/-- A hand-over that succeeds has recorded the commit. -/
theorem keeps_sourceFinish (hl : PastPause l) :
    rules.Keeps (sourceFinish out sourceIo).run (fun l r =>
      PastPause l ∧ (r = .ok () → ∃ st, l = some ⟨.committed, st⟩)) l := by
  obtain ⟨s, rfl, hs⟩ := hl
  have hrecv (s : Stage) (o : Op) (ho : o = .recv) :
      rules.Stays (· = some s) (Session.call o) := by
    rintro l rfl
    subst ho
    exact ⟨trivial, fun _ _ => rfl⟩
  have hfin : PastPause (some ⟨.finish, s.stopped⟩) := ⟨_, rfl,
    (by decide : MigrationPhase.pause.toNat ≤ MigrationPhase.finish.toNat)⟩
  refine ⟨trivial, fun _ _ => ?_⟩
  refine Keeps.after (stays_only only_chanExpectOkay (hrecv _))
    (fun e => ⟨hfin, nofun⟩) fun _ => ⟨trivial, fun r _ => ?_⟩
  cases r with
  | error e => exact ⟨hfin, nofun⟩
  | ok _ =>
    refine ⟨trivial, fun _ _ => ?_⟩
    refine (stays_only (only_confirm _) (hrecv _)).keeps rfl ?_
    rintro l r rfl
    refine ⟨⟨_, rfl, ?_⟩, fun _ => ⟨_, rfl⟩⟩
    show MigrationPhase.pause.toNat ≤ MigrationPhase.committed.toNat
    decide

theorem keeps_sourceInner : rules.Keeps (sourceInner out sourceIo cfg).run (fun l r =>
      (Untouched l ∨ PastPause l) ∧ (r = .ok () → ∃ st, l = some ⟨.committed, st⟩))
      (some ⟨.sync, false⟩) := by
  refine (stays_only (quiet_sourceSync cfg) stays_untouched _ ⟨_, rfl⟩).tryThen
    (fun l e h => ⟨.inl h, nofun⟩) fun l _ hl => ?_
  refine (stays_only quiet_sourcePreCopy stays_untouched l hl).tryThen
    (fun l e h => ⟨.inl h, nofun⟩) fun l _ hl => ?_
  refine (keeps_sourcePause hl).tryThen (fun l e h => ⟨.inr h, nofun⟩)
    fun l hyperv hl => ?_
  refine (stays_only (quiet_sourceState hyperv)
    (fun o ho => stays_past o (past_of_quiet o ho)) l hl).tryThen
    (fun l e h => ⟨.inr h, nofun⟩) fun l _ hl => ?_
  exact (keeps_sourceFinish hl).mono fun l r h => ⟨.inr h.1, h.2⟩

theorem keeps_runSource : rules.Keeps (runSource out sourceIo cfg) (fun l _ => finished l)
      (some ⟨.sync, false⟩) := by
  refine Keeps.seq (keeps_sourceInner.mono ?_)
  rintro l result ⟨hstage, hdone⟩
  obtain ⟨s, rfl⟩ := hstage.elim untouched_some pastPause_some
  refine ⟨trivial, fun ph hph => ?_⟩
  obtain rfl : ph = s.phase := hph s rfl
  cases result with
  | ok u =>
    obtain ⟨st, hst⟩ := hdone rfl
    cases hst
    exact .inr (le_refl _)
  | error e =>
    show rules.Keeps (finishSource sourceIo (.error e) s.phase) _ (some s)
    unfold finishSource
    dsimp only
    split
    · exact ⟨trivial, fun _ _ => ⟨rfl, fun _ _ => .inl rfl⟩⟩
    next hroll =>
      -- no rollback: nothing was stopped yet, or the source has committed
      rcases hstage with ⟨ph, hs⟩ | ⟨s', hs, hpast⟩
      · cases hs
        exact .inl rfl
      · cases hs
        refine .inr ?_
        simp only [rollsBack, Bool.and_eq_true, decide_eq_true_eq] at hroll
        omega

end programs

-- ==== the runs

theorem outline_start (f : Features) (out : Outside) (cfg : SourceConfig)
    (g : Guest) (devices : List Device) :
    (outline f devices).Holds (start out cfg g devices) (fun t =>
      if t = 0 then some ⟨.sync, false⟩ else none) := by
  have hwakes : (start out cfg g devices).sh.Wakes devices :=
    fun i d hi hd => ⟨d, hi, Device.wakes_of_running hd⟩
  refine ⟨⟨rfl, ⟨_, rfl, rfl, hwakes, fun _ i d hi hd _ => ⟨d, hi, hd⟩⟩, fun t ht => if_neg ht⟩, ?_⟩
  intro t
  by_cases ht : t = 0
  · subst ht
    exact Keeps.bind (keeps_runSource.mono fun _ _ hl => hl)
  · simp only [start, ht, if_false]
    trivial

/-- In every run in which the attempt finds no Hyper-V page to take out: the
guest's memory and enlightenment are at every moment those of a guest that
nobody tried to migrate, and when the source is about to resume the vCPUs,
and when it has given up, every device that was at work before is at work
again unless the kernel refused to restart its rings. -/
theorem rollback_invisible (f : Features) (out : Outside)
    (cfg : SourceConfig) (g : Guest) (devices : List Device)
    {s : Pool Op Ans Host}
    (h : (system f).Reach (fun a s => harmless a s = true)
      (start out cfg g devices) s) :
    s.sh.guest = s.sh.twin ∧
      ((s.thr 0).head? = some .resume → s.sh.Back devices) ∧
      ((s.thr 0).isDone = true →
        s.sh.phase.toNat < MigrationPhase.committed.toNat →
        s.sh.Back devices) := by
  obtain ⟨gh, hh⟩ :=
    (outline f devices).sound (outline_start f out cfg g devices) h
  have hinv : Unseen devices s.sh gh := hh.1
  obtain ⟨l, hl, hph, -, hr⟩ := hinv.source
  refine ⟨hinv.guest, ?_, ?_⟩
  · intro hres
    cases hthr : s.thr 0 with
    | ret _ =>
      rw [hthr] at hres
      cases hres
    | iter body i k =>
      rw [hthr] at hres
      cases hres
    | op o k =>
      rw [hthr] at hres
      obtain rfl : o = .resume := Option.some.inj hres
      have hal : mayIssue (gh 0) .resume := hh.allow hthr
      rw [hl] at hal
      exact hr hal
  · intro hdone hlt
    cases hthr : s.thr 0 with
    | op o k =>
      rw [hthr] at hdone
      cases hdone
    | iter body i k =>
      rw [hthr] at hdone
      cases hdone
    | ret _ =>
      have hpost := hh.2 0
      rw [hthr] at hpost
      have hfin : finished (gh 0) := hpost
      rw [hl] at hfin
      rcases hfin with hs | hc
      · exact hr hs
      · rw [hph] at hlt
        omega

/-- A VM with a page of memory at 0x1000 and Hyper-V enlightenments. -/
def onePage : Guest where
  mem := ⟨⟨[⟨0x1000, 0x1000, .ram, ⟨0x1000, ⟨1, 0x1000, .rw⟩, .rwx⟩,
    ⟨2, 0x1000, .rw⟩⟩]⟩, fun _ => 7⟩
  hyperv := some .new

def plain : Features := ⟨false, false, 0⟩

/-- A block device at work. -/
def disk : Device := ⟨some .run, false, false⟩

/-- Every call succeeds; the peer answers with `msg`. -/
def answer (msg : Message) : Choice :=
  ⟨.ok (), .ok (encode Session.bareOutside msg), [], .ok [], .ok (),
    .ok ⟨[]⟩, .ok [], .ok [], [], .all, []⟩

def go : Choice := answer .okay

/-- So many calls of the source that all succeed. -/
def calls (n : Nat) : List (Act Choice Move) := List.replicate n (.run 0 go)

/-- An attempt up to the last pass, whose first send fails, and its rollback,
in which the rings of `refused` do not restart. -/
def failsInLastPass (refused : List Nat) : List (Act Choice Move) :=
  calls 2 ++
  [.run 0 (answer (.serialized (Session.ascii "(protocol:\"vmm-migrate-ron/2\")")))] ++
  calls 5 ++ [.run 0 (answer .memDone)] ++
  calls 2 ++ [.run 0 (answer .memDone)] ++
  -- the pause signal, the pause, the last pass and the rollback
  calls 9 ++
  [.run 0 { go with done := .error "reset" }] ++
  List.replicate 3 (.run 0 { go with refused := refused })

/-- A failed attempt on a guest that has enabled no page: the disk was
stopped, and is at work again. -/
theorem rollback_invisible_disk :
    ∃ s, (system plain).Reach (fun a s => harmless a s = true)
        (start Session.bareOutside Session.bareSetup.source onePage [disk]) s ∧
      (s.thr 0).isDone = true ∧ s.sh.phase = .ramPushPostPause ∧
      s.sh.guest = s.sh.twin ∧ s.sh.stayed = [] ∧ s.sh.Back [disk] := by
  obtain ⟨s, hs, hdone, hphase, hstayed⟩ : ∃ s, (system plain).Reach
      (fun a s => harmless a s = true)
      (start Session.bareOutside Session.bareSetup.source onePage [disk]) s ∧
      (s.thr 0).isDone = true ∧ s.sh.phase = .ramPushPostPause ∧
      s.sh.stayed = [] :=
    System.exists_reach (failsInLastPass []) (by decide +kernel)
  obtain ⟨hguest, -, hback⟩ := rollback_invisible plain Session.bareOutside
    Session.bareSetup.source onePage [disk] hs
  refine ⟨s, hs, hdone, hphase, hguest, hstayed, hback hdone ?_⟩
  rw [hphase]
  decide

/-- Two attempts after which the guest runs and can tell: one leaves a device
that was at work stopped, the other takes an enabled page away. -/
theorem rollback_visible :
    (∃ s, (system plain).Reach System.anyStep
        (start Session.bareOutside Session.bareSetup.source onePage [disk]) s ∧
      (s.thr 0).isDone = true ∧ s.sh.vcpusPaused = false ∧
      disk.running = true ∧
      s.sh.devices = [{ disk with ringsPaused := true }]) ∧
    ∃ s, (system plain).Reach System.anyStep
        (start Session.bareOutside Session.bareSetup.source onePage [disk]) s ∧
      (s.thr 0).isDone = true ∧ s.sh.vcpusPaused = false ∧
      s.sh.guest.hyperv.any (fun i => Hyperv.enabled i.msrHypercall) = true ∧
      s.sh.guest.mem.bytes 0x1000 = 7 ∧
      s.sh.twin.mem.bytes 0x1000 = 0x48 := by
  constructor
  · -- the disk's kernel refuses the restart
    refine System.exists_reach (failsInLastPass [0]) ?_
    decide +kernel
  · -- byte 7 is the guest's own, where its hypercall page was
    refine System.exists_reach ([.env (.wrmsr 0x40000000 1),
      .env (.wrmsr 0x40000001 0x1001)] ++ failsInLastPass []) ?_
    decide +kernel

end Rshyve.Migrate.Rollback
