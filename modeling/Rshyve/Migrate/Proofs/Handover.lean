/-
# The hand-over of the guest

Two copies of one guest must never run against the same disk. The source
commits, records that it has, and only a destination that has the go-ahead
starts the guest. This module proves what of that the code keeps, over every
interleaving of both ends and every cut of the connection, and shows the one
place where it does not.

# The gap

The go-ahead is the `Okay` the source sends last. The source records
`Committed` *after* the send returned, and rolls back on an error in any
phase from `Pause` up to, but not including, `Committed`. A send that
delivers its frame and still reports an error therefore rolls the source
back while the destination has its go-ahead (`handover_split`). The comment
above the three steps names exactly this outcome as the one to rule out.

# The argument

Without that outcome the invariant is short. The destination starts the
guest only after it has taken an `Okay` off the wire; only the source's
go-ahead has that tag; the source sends it with its vCPUs paused and, once
it is out, never reaches its resume. The last step is the phase: the program
is at `Committed` when it has sent the go-ahead, so the rollback test fails.
-/
import Rshyve.Migrate.Session
import Rshyve.Migrate.Proofs.Quiet

namespace Rshyve.Migrate.Session

open Conc Discipline Function

variable {out : Outside}

-- ==== the discipline

/-- What is known of a thread: for the source its phase, whether it has
paused its vCPUs, and whether its go-ahead is out; for the destination
whether it holds the go-ahead. -/
inductive Role where
  | src (phase : MigrationPhase) (paused go : Bool)
  | dst (go : Bool)
  | idle

/-- The go-ahead is only sent paused, the source is never resumed after it,
the destination never starts before it. -/
def mayIssue (out : Outside) : Role → Op → Prop
  | .src _ paused _, .send f =>
    f.getLast? = some 0 → f = encode out .okay ∧ paused = true
  | .src _ _ go, .resume => go = false
  | .dst go, .resume => go = true
  | .idle, _ => False
  | _, _ => True

/-- The source reads back the phase it recorded. -/
def mayAnswer : Role → (o : Op) → Ans o → Prop
  | .src phase _ _, .getPhase, a => a = phase
  | _, _, _ => True

/-- How the calls that matter move what is known. -/
def after : Role → (o : Op) → Ans o → Role
  | .src _ paused go, .setPhase p, _ => .src p paused go
  | .src phase _ go, .pause, .ok _ => .src phase true go
  | .src phase _ go, .resume, _ => .src phase false go
  | .src phase paused go, .send f, .ok _ =>
    .src phase paused (go || f.getLast? == some 0)
  | .dst go, .recv, .ok f => .dst (go || f.getLast? == some 0)
  | r, _, _ => r

def handoverRules (out : Outside) : Discipline Op Ans Role where
  allow := mayIssue out
  can := mayAnswer
  next := after

-- ==== the invariant

/-- What ties the world to the two ends. -/
structure HandoverInv (w : World) (gh : Nat → Role) : Prop where
  src : ∃ paused go, gh srcTid = .src w.srcPhase paused go ∧
    (paused = true → w.srcRunning = false) ∧
    (go = true → paused = true) ∧ (w.goAhead = true → go = true)
  dst : ∃ go, gh dstTid = .dst go ∧ (go = true → w.goAhead = true)
  rest : ∀ t, t ≠ srcTid → t ≠ dstTid → gh t = .idle
  wire : ∀ f ∈ w.toDst, f.getLast? = some 0 → w.goAhead = true
  started : w.dstStarted = true → w.goAhead = true

/-- The parts of the world the hand-over is about. -/
structure SameHandover (w w' : World) : Prop where
  phase : w'.srcPhase = w.srcPhase
  toDst : w'.toDst = w.toDst
  running : w'.srcRunning = w.srcRunning
  started : w'.dstStarted = w.dstStarted
  goAhead : w'.goAhead = w.goAhead

/-- The calls that move no part of the hand-over. -/
def isQuiet : Op → Bool
  | .setPhase _ | .send _ | .recv | .pause | .resume => false
  | _ => true

theorem SameHandover.refl (w : World) : SameHandover w w :=
  ⟨rfl, rfl, rfl, rfl, rfl⟩

variable {o : Op} {a : Ans o} {ph : MigrationPhase} {p : Bool}

variable {c : Choice} {w w' : World}

/-- A quiet call leaves the hand-over where it is. -/
theorem exec_quiet {t : Nat} (ho : isQuiet o = true)
    (h : exec out t c o w = some (a, w')) : SameHandover w w' := by
  by_cases hidle : o.isIdle = true
  · rw [exec_idle hidle h]
    exact .refl w
  · cases o with
    | trackChunk ch =>
      rcases trackBits_cases h with ⟨b, -, -, rfl⟩ | ⟨e, -, rfl⟩
      · exact ⟨rfl, rfl, rfl, rfl, rfl⟩
      · exact .refl w'
    | applyBatch base count flags data sparse =>
      have h := Option.some.inj h
      unfold applyTo at h
      split at h
      · cases h
        exact ⟨rfl, rfl, rfl, rfl, rfl⟩
      · cases h
        exact .refl w
    | setPhase p => cases ho
    | send f => cases ho
    | recv => cases ho
    | pause => cases ho
    | resume => cases ho
    | _ => exact absurd rfl hidle

variable {gh : Nat → Role}

theorem HandoverInv.of_same (h : HandoverInv w gh) (e : SameHandover w w') : HandoverInv w' gh := by
  obtain ⟨paused, go, hgh, hrun, hgo, hahead⟩ := h.src
  refine ⟨⟨paused, go, ?_, ?_, hgo, ?_⟩, ?_, h.rest, ?_, ?_⟩
  · rw [e.phase]
    exact hgh
  · rw [e.running]
    exact hrun
  · rw [e.goAhead]
    exact hahead
  · rw [e.goAhead]
    exact h.dst
  · rw [e.toDst, e.goAhead]
    exact h.wire
  · rw [e.started, e.goAhead]
    exact h.started

/-- A quiet call does not move what is known of a thread. -/
theorem after_quiet {r : Role} (ho : isQuiet o = true) : after r o a = r := by
  cases r <;> cases o <;> first | rfl | cases ho

-- ==== the condition

/-- A failed send of the go-ahead has not delivered it. Sends of any other
message, and sends on a connection that is already cut, are free. -/
def goAheadFaithful (out : Outside) : Act Choice Env → Pool Op Ans World → Prop
  | .run t c, s =>
    c.isSentErr = true → t = srcTid →
    (s.thr t).head? = some (.send (encode out .okay)) → s.sh.cut = true
  | .env _, _ => True

instance : ∀ a s, Decidable (goAheadFaithful out a s)
  | .run _ _, _ => inferInstanceAs (Decidable (_ → _ → _ → _))
  | .env _, _ => isTrue trivial

-- ==== the source moves

section source

variable {w w' : World} {gh : Nat → Role} {c : Choice}

variable {paused go : Bool}

/-- The invariant after a move of the source: what it takes of the world,
given that the destination's side is untouched. -/
theorem handoverInv_src (h : HandoverInv w gh) (hrun : paused = true → w'.srcRunning = false)
    (hgo : go = true → paused = true)
    (hahead : w'.goAhead = true → go = true)
    (hmono : w.goAhead = true → w'.goAhead = true)
    (hwire : ∀ f ∈ w'.toDst, f.getLast? = some 0 → w'.goAhead = true)
    (hstarted : w'.dstStarted = w.dstStarted) :
    HandoverInv w' (update gh srcTid (.src w'.srcPhase paused go)) := by
  refine ⟨⟨paused, go, by simp, hrun, hgo, hahead⟩, ?_, ?_, hwire, ?_⟩
  · obtain ⟨g, hg, himp⟩ := h.dst
    refine ⟨g, ?_, fun h' => hmono (himp h')⟩
    rw [update_of_ne (by simp [dstTid, srcTid])]
    exact hg
  · intro t h0 h1
    rw [update_of_ne h0]
    exact h.rest t h0 h1
  · rw [hstarted]
    exact fun hs => hmono (h.started hs)

theorem handoverInv_srcSend {f : List UInt8} {a : Except String Unit} (h : HandoverInv w gh)
    (hsrc : gh srcTid = .src ph paused go)
    (hal : f.getLast? = some 0 → f = encode out .okay ∧ paused = true)
    (hok : (∃ e, c = .sentErr e) → f = encode out .okay → w.cut = true)
    (hex : sendFrame out srcTid c f w = some (a, w')) :
    HandoverInv w' (update gh srcTid (after (.src ph paused go) (.send f) a)) := by
  obtain ⟨paused', go', hgh, hrun, hgo, hahead⟩ := h.src
  obtain ⟨rfl, rfl, rfl⟩ : ph = w.srcPhase ∧ paused = paused' ∧ go = go' := by
    rw [hsrc] at hgh
    injection hgh with h1 h2 h3
    exact ⟨h1, h2, h3⟩
  have htag : (encode out .okay).getLast? = some 0 := encode_getLast _
  have hcut : w.cut = true → deliver out srcTid f w = w := by
    intro hc
    unfold deliver
    rw [if_pos hc]
  have hopen : w.cut = false → deliver out srcTid f w =
      { w with
        toDst := w.toDst ++ [f]
        goAhead := w.goAhead || f == encode out .okay } := by
    intro hc
    unfold deliver
    rw [if_neg (by simp [hc]), if_pos rfl]
  -- on an open wire a tagged frame is the go-ahead, and it is recorded
  have hwire : ∀ g ∈ w.toDst ++ [f], g.getLast? = some 0 →
      (w.goAhead || f == encode out .okay) = true := by
    intro g hg htg
    rcases List.mem_append.mp hg with hold | hnew
    · simp [h.wire g hold htg]
    · obtain rfl := List.mem_singleton.mp hnew
      simp [(hal htg).1]
  rcases sendFrame_cases hex with ⟨rfl, rfl⟩ | ⟨e, rfl, rfl⟩ | ⟨e, rfl, rfl, rfl⟩
  · cases hc : w.cut with
    | true =>
      rw [hcut hc]
      refine handoverInv_src h hrun ?_ (fun h' => by simp [hahead h']) id h.wire rfl
      intro hg
      rcases Bool.or_eq_true_iff.mp hg with h' | h'
      · exact hgo h'
      · exact (hal (by simpa using h')).2
    | false =>
      rw [hopen hc]
      refine handoverInv_src h hrun ?_ ?_ (fun h' => by simp [h']) hwire rfl
      · intro hg
        rcases Bool.or_eq_true_iff.mp hg with h' | h'
        · exact hgo h'
        · exact (hal (by simpa using h')).2
      · intro hg
        rcases Bool.or_eq_true_iff.mp hg with h' | h'
        · simp [hahead h']
        · obtain rfl : f = encode out .okay := by simpa using h'
          simp [htag]
  · exact handoverInv_src h hrun hgo hahead id h.wire rfl
  · show HandoverInv _ (update gh srcTid (.src w.srcPhase paused go))
    cases hc : w.cut with
    | true =>
      rw [hcut hc]
      exact handoverInv_src h hrun hgo hahead id h.wire rfl
    | false =>
      -- an open wire, so this is not the go-ahead
      have hne : f ≠ encode out .okay := by
        intro hf
        have := hok ⟨e, rfl⟩ hf
        simp [hc] at this
      rw [hopen hc]
      refine handoverInv_src h hrun hgo ?_ (fun h' => by simp [h']) hwire rfl
      intro hg
      rcases Bool.or_eq_true_iff.mp hg with h' | h'
      · exact hahead h'
      · exact absurd (by simpa using h') hne

theorem handoverInv_srcMove {s : Pool Op Ans World} {k : Ans o → Prog Unit}
    (ht : s.thr srcTid = .op o k) (hok : goAheadFaithful out (.run srcTid c) s)
    (h : HandoverInv s.sh gh) (hal : mayIssue out (gh srcTid) o)
    (hex : exec out srcTid c o s.sh = some (a, w')) :
    mayAnswer (gh srcTid) o a ∧ HandoverInv w' (update gh srcTid (after (gh srcTid) o a)) := by
  obtain ⟨paused, go, hsrc, hrun, hgo, hahead⟩ := h.src
  rw [hsrc] at hal ⊢
  by_cases hq : isQuiet o = true
  · refine ⟨?_, ?_⟩
    · cases o <;> first | trivial | (cases hex; rfl)
    · rw [after_quiet hq, ← hsrc, update_eq_self]
      exact h.of_same (exec_quiet hq hex)
  · cases o <;> first | exact absurd rfl hq | skip
    case setPhase p =>
      cases hex
      exact ⟨trivial, handoverInv_src h hrun hgo hahead id h.wire rfl⟩
    case send f =>
      refine ⟨trivial, handoverInv_srcSend h hsrc hal ?_ hex⟩
      rintro ⟨e, rfl⟩ rfl
      exact hok rfl rfl (by rw [ht]; rfl)
    case recv =>
      refine ⟨trivial, ?_⟩
      rcases recvFrame_cases hex with ⟨f, rfl, hf⟩ | ⟨e, rfl, rfl⟩
      · unfold takeFrame at hf
        rw [if_pos rfl] at hf
        split at hf
        · cases hf
        · cases hf
          exact handoverInv_src h hrun hgo hahead id h.wire rfl
      · exact handoverInv_src h hrun hgo hahead id h.wire rfl
    case pause =>
      refine ⟨trivial, ?_⟩
      rcases orRefuse_cases hex with ⟨rfl, rfl⟩ | ⟨e, rfl, rfl⟩
      · exact handoverInv_src h (fun _ => rfl) (fun _ => rfl) hahead id h.wire rfl
      · exact handoverInv_src h hrun hgo hahead id h.wire rfl
    case resume =>
      refine ⟨trivial, ?_⟩
      -- the go-ahead is not out, so it is not on the wire either
      have hgo0 : go = false := hal
      have hnot : ¬ s.sh.goAhead = true := by
        intro hg
        rw [hahead hg] at hgo0
        cases hgo0
      subst hgo0
      rcases orRefuse_cases hex with ⟨rfl, rfl⟩ | ⟨e, rfl, rfl⟩
      · exact handoverInv_src h (fun hp => (nomatch hp))
          (fun hg => (nomatch hg)) (fun hg => absurd hg hnot) id h.wire rfl
      · exact handoverInv_src h (fun hp => (nomatch hp))
          (fun hg => (nomatch hg)) (fun hg => absurd hg hnot) id h.wire rfl

end source

-- ==== the destination moves

theorem handoverInv_dst {go : Bool} (h : HandoverInv w gh) (hphase : w'.srcPhase = w.srcPhase)
    (hrunning : w'.srcRunning = w.srcRunning)
    (hahead : w'.goAhead = w.goAhead)
    (hgo : go = true → w.goAhead = true)
    (hwire : ∀ f ∈ w'.toDst, f ∈ w.toDst)
    (hstarted : w'.dstStarted = true → w.goAhead = true) :
    HandoverInv w' (update gh dstTid (.dst go)) := by
  obtain ⟨paused, g, hsrc, hrun, hpg, hag⟩ := h.src
  refine ⟨⟨paused, g, ?_, ?_, hpg, ?_⟩, ⟨go, by simp, ?_⟩, ?_, ?_, ?_⟩
  · rw [update_of_ne (by simp [dstTid, srcTid]), hphase]
    exact hsrc
  · rw [hrunning]
    exact hrun
  · rw [hahead]
    exact hag
  · rw [hahead]
    exact hgo
  · intro t h0 h1
    rw [update_of_ne h1]
    exact h.rest t h0 h1
  · intro f hf htag
    rw [hahead]
    exact h.wire f (hwire f hf) htag
  · rw [hahead]
    exact hstarted

theorem handoverInv_dstMove (h : HandoverInv w gh) (hal : mayIssue out (gh dstTid) o)
    (hex : exec out dstTid c o w = some (a, w')) :
    mayAnswer (gh dstTid) o a ∧ HandoverInv w' (update gh dstTid (after (gh dstTid) o a)) := by
  obtain ⟨go, hdst, hgo⟩ := h.dst
  have hkeep : ∀ {v : World}, v.srcPhase = w.srcPhase →
      v.srcRunning = w.srcRunning → v.goAhead = w.goAhead →
      (∀ f ∈ v.toDst, f ∈ w.toDst) → v.dstStarted = w.dstStarted →
      HandoverInv v (update gh dstTid (.dst go)) := by
    intro v h1 h2 h3 h4 h5
    refine handoverInv_dst h h1 h2 h3 hgo h4 ?_
    rw [h5]
    exact h.started
  rw [hdst] at hal ⊢
  refine ⟨trivial, ?_⟩
  by_cases hq : isQuiet o = true
  · rw [after_quiet hq, ← hdst, update_eq_self]
    exact h.of_same (exec_quiet hq hex)
  · cases o <;> first | exact absurd rfl hq | skip
    case setPhase p =>
      cases hex
      exact hkeep rfl rfl rfl (fun _ hf => hf) rfl
    case send f =>
      have hdeliver : HandoverInv (deliver out dstTid f w) (update gh dstTid (.dst go)) := by
        unfold deliver
        split
        · exact hkeep rfl rfl rfl (fun _ hf => hf) rfl
        · rw [if_neg (by simp [dstTid, srcTid])]
          exact hkeep rfl rfl rfl (fun _ hf => hf) rfl
      rcases sendFrame_cases hex with ⟨rfl, rfl⟩ | ⟨e, rfl, rfl⟩ | ⟨e, -, rfl, rfl⟩
      · exact hdeliver
      · exact hkeep rfl rfl rfl (fun _ hf => hf) rfl
      · exact hdeliver
    case recv =>
      rcases recvFrame_cases hex with ⟨f, rfl, hf⟩ | ⟨e, rfl, rfl⟩
      · unfold takeFrame at hf
        rw [if_neg (by simp [dstTid, srcTid])] at hf
        split at hf
        · cases hf
        next g rest hto =>
          cases hf
          -- a tagged frame came off the wire, so the go-ahead was on it
          refine handoverInv_dst h rfl rfl rfl ?_ ?_ h.started
          · intro hg
            rcases Bool.or_eq_true_iff.mp hg with h' | h'
            · exact hgo h'
            · exact h.wire f (by rw [hto]; exact List.mem_cons_self) (by simpa using h')
          · intro g hg
            rw [hto]
            exact List.mem_cons_of_mem f hg
      · exact hkeep rfl rfl rfl (fun _ hf => hf) rfl
    case pause =>
      rcases orRefuse_cases hex with ⟨rfl, rfl⟩ | ⟨e, rfl, rfl⟩
      · exact hkeep rfl rfl rfl (fun _ hf => hf) rfl
      · exact hkeep rfl rfl rfl (fun _ hf => hf) rfl
    case resume =>
      have hheld : go = true := hal
      rcases orRefuse_cases hex with ⟨rfl, rfl⟩ | ⟨e, rfl, rfl⟩
      · exact handoverInv_dst h rfl rfl rfl hgo (fun _ hf => hf) fun _ => hgo hheld
      · exact hkeep rfl rfl rfl (fun _ hf => hf) rfl

-- ==== the outline

theorem handoverInv_env {e : Env} (h : HandoverInv w gh) (henv : envWorld e w = some w') :
    HandoverInv w' gh := by
  obtain ⟨paused, go, hsrc, hrun, hgo, hahead⟩ := h.src
  unfold envWorld at henv
  split at henv
  · cases henv
    refine ⟨⟨paused, go, hsrc, hrun, hgo, hahead⟩, h.dst, h.rest, ?_, h.started⟩
    intro f hf
    exact h.wire f (List.mem_of_mem_take hf)
  · split at henv
    · cases henv
      exact ⟨⟨paused, go, hsrc, hrun, hgo, hahead⟩, h.dst, h.rest, h.wire, h.started⟩
    · cases henv

/-- The discipline and the invariant of the hand-over. -/
def handoverOutline (out : Outside) : Outline (system out) (goAheadFaithful out) Role where
  toDiscipline := handoverRules out
  post _ := True
  inv := HandoverInv
  op_step := by
    intro s t c o k a w' gh ht hok hinv hal hex
    by_cases h0 : t = srcTid
    · subst h0
      exact handoverInv_srcMove ht hok hinv hal hex
    · by_cases h1 : t = dstTid
      · subst h1
        exact handoverInv_dstMove hinv hal hex
      · -- no other thread has a program
        have hal : mayIssue out (gh t) o := hal
        rw [hinv.rest t h0 h1] at hal
        exact absurd hal id
  env_step := by
    intro s s' e gh _ hinv hthr henv
    obtain ⟨w, hw, rfl⟩ := Option.map_eq_some_iff.mp henv
    exact ⟨gh, handoverInv_env hinv hw, hthr⟩

-- ==== the programs keep to it

section programs

variable {cfg : SourceConfig}

/-- The source before the go-ahead, whatever phase it has recorded. -/
def Held (paused : Bool) (l : Role) : Prop := ∃ ph, l = .src ph paused false

/-- What only moves data leaves the hand-over alone. -/
theorem stays_quiet {lo : Nat} (o : Op) (ho : Quiet lo o) :
    (handoverRules out).Stays (Held p) (call o) := by
  rintro l ⟨ph, rfl⟩
  cases o with
  | setPhase ph' => exact ⟨trivial, fun _ _ => ⟨ph', rfl⟩⟩
  | send f =>
    refine ⟨fun h => absurd h ho, fun a _ => ⟨ph, ?_⟩⟩
    cases a <;> simp_all [handoverRules, after]
  | recv | regions | memRead | trackChunk | exportTimeData | exportDeviceState
  | exportDevices => exact ⟨trivial, fun _ _ => ⟨ph, rfl⟩⟩
  | _ => exact ho.elim

/-- The go-ahead is not out. -/
def Unsent : Role → Prop
  | .src _ _ go => go = false
  | _ => False

/-- What a part ends in: paused and unsent, or an error and unsent. -/
def PausedOrErr {α : Type} (l : Role) : Except MigrateError α → Prop
  | .ok _ => ∃ ph, l = .src ph true false
  | .error _ => Unsent l

theorem steady_sourcePause : (handoverRules out).Steady
    (sourcePause sourceIo cfg).run PausedOrErr (.src ph false false) := by
  simp [-ExceptT.run_bind, sourcePause, zfsBarrier, attempt, attemptE,
    steady_call, handoverRules, mayIssue, after, forall_except, PausedOrErr,
    Unsent]

/-- Once the go-ahead is out, the phase on record is `Committed`. -/
def CommittedIfSent : Role → Prop
  | .src phase _ go => go = true → phase = .committed
  | _ => False

theorem Unsent.committedIfSent {l : Role} (h : Unsent l) : CommittedIfSent l := by
  cases l with
  | src ph p g =>
    intro hg
    rw [show g = false from h] at hg
    cases hg
  | dst g => exact h
  | idle => exact h

theorem Held.committedIfSent {l : Role} (h : Held p l) : CommittedIfSent l := by
  obtain ⟨ph, rfl⟩ := h
  exact fun hg => (nomatch hg)

theorem keeps_sourceFinish : (handoverRules out).Keeps
    (sourceFinish out sourceIo).run (fun l _ => CommittedIfSent l)
    (.src ph true false) := by
  have hrecv (ph : MigrationPhase) (go : Bool) (o : Op) (ho : o = .recv) :
      (handoverRules out).Stays (· = .src ph true go) (call o) := by
    rintro l rfl
    subst ho
    exact ⟨trivial, fun _ _ => rfl⟩
  refine ⟨trivial, fun _ _ => ?_⟩
  refine (stays_only only_chanExpectOkay (hrecv .finish false) _ rfl).tryThen
    (fun l _ hl => ?_) fun l _ hl => ?_
  · obtain rfl := hl
    exact fun hg => (nomatch hg)
  · obtain rfl := hl
    refine ⟨fun _ => ⟨rfl, rfl⟩, fun r _ => ?_⟩
    cases r with
    | error e => exact fun hg => (nomatch hg)
    | ok _ =>
      refine ⟨trivial, fun _ _ => ?_⟩
      refine (stays_only (only_confirm _) (hrecv .committed true)).keeps rfl ?_
      rintro l _ rfl _
      rfl

theorem keeps_runSource : (handoverRules out).Keeps (runSource out sourceIo cfg)
      (fun _ _ => True) (.src .sync false false) := by
  have hinner : (handoverRules out).Keeps (sourceInner out sourceIo cfg).run
      (fun l _ => CommittedIfSent l) (.src .sync false false) := by
    refine (stays_only (quiet_sourceSync cfg) stays_quiet _ ⟨_, rfl⟩).tryThen
      (fun l e h => Held.committedIfSent h) fun l _ hl => ?_
    refine (stays_only quiet_sourcePreCopy stays_quiet l hl).tryThen
      (fun l e h => Held.committedIfSent h) ?_
    rintro l _ ⟨ph, rfl⟩
    refine steady_sourcePause.keeps.tryThen (fun l e h => h.committedIfSent)
      fun l hyperv hl => ?_
    refine (stays_only (quiet_sourceState hyperv) stays_quiet l hl).tryThen
      (fun l e h => Held.committedIfSent h) ?_
    rintro l _ ⟨ph, rfl⟩
    exact keeps_sourceFinish
  refine Keeps.seq (hinner.mono fun l result hl => ?_)
  -- the rollback: only in a phase that shows the go-ahead is not out
  cases l with
  | dst g => exact absurd hl id
  | idle => exact absurd hl id
  | src ph p g =>
    refine ⟨trivial, ?_⟩
    rintro ph' rfl
    cases result with
    | ok _ => trivial
    | error e =>
      show (handoverRules out).Keeps (finishSource sourceIo (.error e) ph')
        _ (.src ph' p g)
      unfold finishSource
      dsimp only
      split
      next hroll =>
        have hg : g = false := by
          cases g with
          | false => rfl
          | true =>
            rw [hl rfl] at hroll
            exact absurd hroll (by decide)
        exact ⟨trivial, fun _ _ => ⟨hg, fun _ _ => trivial⟩⟩
      · trivial

/-- The destination without its guest, with or without the go-ahead. -/
theorem stays_open (o : Op) (ho : Open o) :
    (handoverRules out).Stays (fun l => ∃ d, l = .dst d) (call o) := by
  rintro l ⟨d, rfl⟩
  cases o with
  | recv => exact ⟨trivial, fun a _ => by cases a <;> exact ⟨_, rfl⟩⟩
  | resume | resumeDevices => exact ho.elim
  | _ => exact ⟨trivial, fun _ _ => ⟨d, rfl⟩⟩

theorem open_of_imports (o : Op) (h : Imports o) : Open o := by
  cases o <;> trivial

/-- The destination takes the go-ahead for an `Okay` off the wire. -/
theorem steady_expectGoAhead {d : Bool} : (handoverRules out).Steady
    (chanExpectOkay out destIo.recvFrame).run
    (fun l r => r = .ok () → l = .dst true) (.dst d) := by
  simp [-ExceptT.run_bind, chanExpectOkay, chanRecv, attemptE, steady_call,
    handoverRules, mayIssue, after, try_iff, forall_except, expectOkay_eq_ok]
  rintro f - _ hf rfl
  exact .inr (getLast_of_decode hf)

/-- The destination starts its guest once it has the go-ahead. -/
theorem keeps_destFinish {d : Bool} : (handoverRules out).Keeps
    (destFinish out destIo).run (fun _ _ => True) (.dst d) := by
  refine ⟨trivial, fun _ _ => ⟨trivial, fun r _ => ?_⟩⟩
  cases r with
  | error e => trivial
  | ok _ =>
    refine steady_expectGoAhead.keeps.tryThen (fun _ _ _ => trivial) ?_
    intro l _ hl
    obtain rfl := hl rfl
    refine ⟨trivial, fun _ _ => ⟨trivial, fun _ _ => ⟨rfl, fun r _ => ?_⟩⟩⟩
    cases r with
    | error e => trivial
    | ok _ => exact ⟨trivial, fun r _ => by cases r <;> trivial⟩

theorem keeps_runDestination {cfg : DestConfig} :
    (handoverRules out).Keeps (runDestination out destIo cfg) (fun _ _ => True) (.dst false) := by
  refine (stays_only (open_destSync cfg) stays_open _ ⟨_, rfl⟩).tryThen
    (fun _ _ _ => trivial) ?_
  rintro l _ ⟨d, rfl⟩
  refine (stays_only open_destRam stays_open _ ⟨_, rfl⟩).tryThen
    (fun _ _ _ => trivial) ?_
  rintro l _ ⟨d, rfl⟩
  refine (stays_only (imports_destState cfg)
    (fun o ho => stays_open o (open_of_imports o ho)) _ ⟨_, rfl⟩).tryThen
    (fun _ _ _ => trivial) ?_
  rintro l _ ⟨d, rfl⟩
  exact keeps_destFinish

end programs

theorem handover_start (cfg : Setup) : (handoverOutline out).Holds (start out cfg) (fun t =>
      if t = srcTid then .src .sync false false
      else if t = dstTid then .dst false else .idle) := by
  refine ⟨⟨⟨false, false, rfl, nofun, nofun, nofun⟩, ⟨false, rfl, nofun⟩, ?_, nofun, nofun⟩, ?_⟩
  · intro t h0 h1
    rw [if_neg h0, if_neg h1]
  · intro t
    by_cases h0 : t = srcTid
    · subst h0
      exact Keeps.bind (keeps_runSource.mono fun _ _ _ => trivial)
    · by_cases h1 : t = dstTid
      · subst h1
        exact Keeps.bind (keeps_runDestination.mono fun _ _ _ => trivial)
      · simp only [start, h0, h1, if_false]
        trivial

-- ==== the hand-over

/-- In every run in which no failed send has delivered the go-ahead, the two
copies of the guest never run together, and once the go-ahead is out the
source is never about to resume its own. -/
theorem handover_exclusive (cfg : Setup) {s : Pool Op Ans World}
    (h : (system out).Reach (goAheadFaithful out) (start out cfg) s) :
    ¬ (s.sh.srcPaused = true ∧ s.sh.srcRunning = true ∧
        s.sh.dstStarted = true) ∧
      (s.sh.goAhead = true ∨ s.sh.dstStarted = true →
        (s.thr srcTid).head? ≠ some .resume) := by
  obtain ⟨gh, hh⟩ := (handoverOutline out).sound (handover_start cfg) h
  have hinv : HandoverInv s.sh gh := hh.1
  obtain ⟨paused, go, hsrc, hrun, hgo, hahead⟩ := hinv.src
  refine ⟨?_, ?_⟩
  · rintro ⟨-, hr, hd⟩
    rw [hrun (hgo (hahead (hinv.started hd)))] at hr
    cases hr
  · intro hout hres
    have hgoAhead : s.sh.goAhead = true := hout.elim id hinv.started
    cases hthr : s.thr srcTid with
    | ret _ =>
      rw [hthr] at hres
      cases hres
    | iter body i k =>
      rw [hthr] at hres
      cases hres
    | op o k =>
      rw [hthr] at hres
      obtain rfl : o = .resume := Option.some.inj hres
      have hal : mayIssue out (gh srcTid) .resume := hh.allow hthr
      rw [hsrc] at hal
      rw [show go = false from hal] at hahead
      cases hahead hgoAhead

theorem handover_exclusive_bare :
    ∃ s, (system bareOutside).Reach (goAheadFaithful bareOutside)
        (start bareOutside bareSetup) s ∧
      (s.sh.srcPaused = true ∧ s.sh.dstStarted = true) ∧
      s.sh.srcRunning = false := by
  obtain ⟨s, hs, hp⟩ : ∃ s, (system bareOutside).Reach
      (goAheadFaithful bareOutside) (start bareOutside bareSetup) s ∧
      s.sh.srcPaused = true ∧ s.sh.dstStarted = true :=
    System.exists_reach (bareRun ++ calls 0 2 ++ calls 1 5) (by decide +kernel)
  refine ⟨s, hs, hp, ?_⟩
  have hex := (handover_exclusive bareSetup hs).1
  cases hr : s.sh.srcRunning with
  | false => rfl
  | true => exact absurd ⟨hp.1, hr, hp.2⟩ hex

/-- A go-ahead that is delivered by a send that fails: the destination
starts the guest, and the source rolls back to a running one. -/
theorem handover_split :
    ∃ s, (system bareOutside).Reach System.anyStep
        (start bareOutside bareSetup) s ∧
      (s.sh.srcPaused = true ∧ s.sh.srcRunning = true ∧
        s.sh.dstStarted = true) := by
  refine System.exists_reach (bareRun ++ [.run 0 (.sentErr "reset")] ++
    calls 1 4 ++ calls 0 3) ?_
  decide +kernel

end Rshyve.Migrate.Session
