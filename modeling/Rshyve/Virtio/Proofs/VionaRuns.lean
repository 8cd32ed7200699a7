/-
# What viona keeps in every run

The guest may reset the device, program rings and kick them from any number
of vCPUs while the device is halted and a migration pauses it, and every
kernel request may be refused.

`rings_owned`: a reset or an address write that did not run into a halt
returns with the old rings out of the kernel; a kick is only sent for a ring
the kernel has; once the device is marked halted, only the halting thread
makes requests on the link, and the poll thread until it is joined. The
condition is needed (`rings_not_owned`): a call that finds the device
halted returns at once, while the halt is still on its way to the delete.

`rollback_restores`: the kernel never has another ring than the driver, and
after a migration that failed it runs every ring the driver has programmed,
where the driver's ring is, but for the rings the rollback reports. The runs
are those in which no ring is programmed while a state is saved for it. The
rollback looks only at whether the ring is programmed: one that was replaced
since the pause gets the old ring's addresses back (`rollback_falls_short`).
-/
import Rshyve.Virtio.Proofs.VionaRings

namespace Rshyve.Virtio.Viona

open Conc

-- ==== the outline

/-- No ring is programmed while a state is saved for it. -/
def unsaved : Act Choice Move → Pool Op Ans Host → Bool
  | .run t .go, s =>
    match (s.thr t).head? with
    | some (.ringInit r ..) =>
      match s.sh.inner.pausedRings r with
      | .saved _ => false
      | _ => true
    | _ => true
  | _, _ => true

theorem not_saved_of_unsaved {t : Nat} {s : Pool Op Ans Host} {r : Ring}
    {size : BitVec 16} {desc avail used : BitVec 64}
    {k : Except IoError Unit → Prog Unit}
    (hthr : s.thr t = .op (.ringInit r size desc avail used) k)
    (hok : unsaved (.run t .go) s = true) (st : VringState) :
    s.sh.inner.pausedRings r ≠ .saved st := by
  intro hst
  simp [unsaved, hthr, Proc.head?, hst] at hok

/-- The rules, the invariant, and the runs they are kept in: all of them
without a rollback, and with one those that program no saved ring. -/
def outline (b : Bool) (m : Nat) (ok : Act Choice Move → Pool Op Ans Host → Prop)
    (hok : b = true → ∀ a s, ok a s → unsaved a s = true) :
    Outline system ok Loc where
  toDiscipline := rules b
  post l := l.stage ≠ .resuming ∧ (b = true → l.stage ≠ .fresh)
  inv := Inv b m
  op_step := by
    intro s t c o k a sh gh hthr hstep hinv hal hex
    simp only [system] at hex
    split at hex
    · cases hex
    · refine hinv.step ?_ hal hex
      intro r size desc avail used ho hgo hb
      subst ho hgo
      exact not_saved_of_unsaved hthr (hok hb _ _ hstep)
  env_step := by
    intro s s' e gh _ hinv hkeeps henv
    simp only [system] at henv
    split at henv
    · cases henv
    · obtain ⟨h', hm, rfl⟩ := Option.map_eq_some_iff.mp henv
      exact ⟨gh, hinv.move hm, hkeeps⟩

-- ==== the start

/-- Where a job begins. -/
def Job.stage : Job → Stage
  | .guest _ | .halt => .guest
  | .pause | .attempt => .fresh

def startLoc (poller : Bool) (jobs : Nat → Job) : Nat → Loc
  | 0 => if poller then .poller else .rest .guest
  | t + 1 => .rest (jobs t).stage

theorem keeps_job {b : Bool} (j : Job) (hj : j = .attempt → b = true) (hp : b = true → j ≠ .pause) :
    (rules b).Keeps j.program (fun l _ => l.stage ≠ .resuming ∧ (b = true → l.stage ≠ .fresh))
      (.rest j.stage) := by
  have hidle (st : Stage) : (Loc.rest st).idle := ⟨rfl, rfl, rfl⟩
  cases j with
  | guest calls =>
    refine (keeps_guest calls (hidle _) rfl).mono ?_
    rintro l _ ⟨-, hst⟩
    rw [hst]
    exact ⟨nofun, nofun⟩
  | halt =>
    refine (keeps_halt (hidle .guest) nofun).mono ?_
    rintro l _ ⟨-, hst⟩
    rw [hst]
    exact ⟨nofun, nofun⟩
  | pause =>
    refine (keeps_pauseRings (hidle _) rfl).comp ?_
    rintro l _ ⟨-, hst⟩
    refine ⟨?_, fun hb => absurd rfl (hp hb)⟩
    rw [hst]
    nofun
  | attempt =>
    obtain rfl := hj rfl
    refine (keeps_attempt (hidle _) rfl).mono ?_
    rintro l _ ⟨-, hst⟩
    rw [hst]
    exact ⟨nofun, nofun⟩

theorem start_holds {b : Bool} {m : Nat} {ok : Act Choice Move → Pool Op Ans Host → Prop}
    (hok : b = true → ∀ a s, ok a s → unsaved a s = true) (poller : Bool)
    (jobs : Nat → Job) (hm : b = true → m ≠ 0)
    (hfresh : b = true → ∀ t, (jobs t).stage = .fresh ↔ t + 1 = m)
    (hattempt : ∀ t, jobs t = .attempt → b = true)
    (hpause : b = true → ∀ t, jobs t ≠ .pause) :
    (outline b m ok hok).Holds (start poller jobs) (startLoc poller jobs) := by
  refine ⟨⟨⟨fun _ r => ⟨rfl, rfl⟩, nofun, fun r st h => (nomatch h),
    fun r k h => (nomatch h), fun _ _ => rfl, fun _ hp => ?_, nofun, nofun,
    fun _ => Nat.le_refl _⟩, fun t => ?_⟩, fun t => ?_⟩
  · rw [show poller = false from hp]
    rfl
  · cases t with
    | zero =>
      cases poller with
      | true =>
        exact ⟨⟨nofun, nofun⟩, nofun, fun hb => (hm hb).symm,
          fun h => absurd rfl h, nofun, fun _ => ⟨rfl, rfl⟩,
          fun _ _ h => (nomatch h), nofun⟩
      | false =>
        exact ⟨⟨nofun, nofun⟩, nofun, fun hb => (hm hb).symm, fun h => absurd rfl h, nofun, nofun,
          fun _ _ h => (nomatch h), nofun⟩
    | succ t =>
      refine ⟨⟨nofun, nofun⟩, nofun, ?_, fun h => absurd rfl h, nofun,
        nofun, fun _ _ h => (nomatch h), nofun⟩
      show StageOk b m _ (t + 1) (jobs t).stage
      cases hst : (jobs t).stage with
      | guest =>
        intro hb heq
        rw [(hfresh hb t).mpr heq] at hst
        cases hst
      | fresh => exact ⟨fun hb => (hfresh hb t).mp hst, fun _ => rfl⟩
      | resuming => cases hj : jobs t <;> rw [hj] at hst <;> cases hst
      | after => cases hj : jobs t <;> rw [hj] at hst <;> cases hst
  · cases t with
    | zero =>
      cases poller with
      | true =>
        refine (keeps_pollThread (l := .poller) ⟨rfl, rfl⟩).mono ?_
        intro l _ hst
        show l.stage ≠ .resuming ∧ (b = true → l.stage ≠ .fresh)
        rw [hst]
        exact ⟨nofun, nofun⟩
      | false => exact ⟨nofun, nofun⟩
    | succ t => exact keeps_job _ (hattempt t) fun hb => hpause hb t

-- ==== ring ownership

/-- A request on the link is made in a section of a device that is not
halted, by a halt that has joined the poll thread, or by the poll thread. -/
theorem request_cases {b : Bool} {l : Loc} {o : Op}
    (hal : mayIssue b l o) (ho : o.isRequest = true) :
    (∃ s, l.inside s) ∨ l.halting = .clear ∨ l.polling = true := by
  cases o with
  | ringInit r size desc avail used =>
    obtain ⟨s, hin, -⟩ := hal
    exact .inl ⟨s, hin⟩
  | ringKick r =>
    obtain ⟨s, hin, -⟩ := hal
    exact .inl ⟨s, hin⟩
  | ringReset r =>
    rcases hal with hin | ⟨hclear, -⟩
    · exact .inl hin
    · exact .inr (.inl hclear)
  | ringPause r => exact .inl hal
  | ringGetState r => exact .inl hal
  | ringSetState st =>
    obtain ⟨s, hin, -⟩ := hal
    exact .inl ⟨s, hin⟩
  | setFeatures f => exact .inl hal
  | delete => exact .inr (.inl hal.1)
  | intrStatus => exact .inr (.inr hal)
  | ringIntrClr r => exact .inr (.inr hal)
  | waitIntr => exact .inr (.inr hal)
  | _ => cases ho

/-- In every run without a rollback: when a reset or an address write
returns, no kernel ring is left from before it began, unless the call ran
into a halt; a kick goes to a ring the kernel has; and on a halted device
only the halting thread makes requests, and the poll thread until it is
joined, before the link is deleted. -/
theorem rings_owned (poller : Bool) (jobs : Nat → Job)
    (hjobs : ∀ t, jobs t ≠ .attempt) {s : Pool Op Ans Host}
    (hs : system.Reach System.anyStep (start poller jobs) s) :
    (∀ t c, (s.thr t).head? = some (.returns c) → s.sh.aborted = false →
      s.sh.early t = false → ∀ r, c.retires r = true →
      ∀ k, s.sh.rings r = some k → s.sh.since t ≤ s.sh.programmedAt r) ∧
    (∀ t r, (s.thr t).head? = some (.ringKick r) →
      (s.sh.rings r).isSome = true) ∧
    (∀ t o, (s.thr t).head? = some o → o.isRequest = true →
      s.sh.inner.halted = true → s.sh.halter = some t ∨
        t = 0 ∧ s.sh.joined = false ∧ s.sh.deleted = false) := by
  have hstart := @start_holds false 0 System.anyStep
    nofun poller jobs nofun nofun (fun t ht => absurd ht (hjobs t)) nofun
  obtain ⟨gh, hinv, hkeeps⟩ := (outline false 0 _ nofun).sound hstart hs
  have hallow {t : Nat} {o : Op} (h : (s.thr t).head? = some o) :
      mayIssue false (gh t) o := by
    obtain ⟨k, hk⟩ := Proc.op_of_head? h
    exact Outline.Holds.allow (O := outline false 0 _ nofun)
      ⟨hinv, hkeeps⟩ hk
  obtain ⟨hsh, hper⟩ := id hinv
  refine ⟨fun t c hhead hab hearly r hr k hk => ?_, fun t r hhead => ?_,
    fun t o hhead ho hh => ?_⟩
  · obtain ⟨-, hdead | hfreed⟩ := hallow hhead
    · rcases (hper t).dead hdead with h1 | h2 | h3
      · rw [hearly] at h1
        cases h1
      · rw [(hsh.deleted h2).2.2 r] at hk
        cases hk
      · rw [hab] at h3
        cases h3
    · refine (hper t).freed rfl r (hfreed r hr) ?_
      rw [hk]
      nofun
  · obtain ⟨sec, hin, hkick, hany⟩ := hallow hhead
    have hag := ((hper t).sec sec hin.1).agrees r
    cases hv : sec.view r with
    | gone | bare _ =>
      rw [hv] at hkick
      cases hkick
    | live | stopped _ | held =>
      rw [hv] at hag
      obtain ⟨_, hk, -⟩ := hag
      rw [hk]
      rfl
    | any => exact absurd (hany hv) nofun
  · rcases request_cases (hallow hhead) ho with ⟨sec, hin⟩ | hclear | hpoll
    · rw [hinv.not_halted hin] at hh
      cases hh
    · exact .inl ((hper t).halt (by rw [hclear]; nofun)).2
    · obtain ⟨ht, hpolled⟩ := (hper t).poll hpoll
      refine .inr ⟨ht, ?_, ?_⟩
      · cases hj : s.sh.joined with
        | false => rfl
        | true =>
          rw [hsh.joined hj] at hpolled
          cases hpolled
      · cases hd : s.sh.deleted with
        | false => rfl
        | true =>
          rw [(hsh.deleted hd).2.1] at hpolled
          cases hpolled

/-- A queue whose rings are at `desc`. -/
def queueAt (desc : BitVec 64) : Pci.VirtQueue :=
  { Pci.VirtQueue.new 256 with
    descAddr := desc, availAddr := desc + 0x1000, usedAddr := desc + 0x2000 }

def jobsOf (js : List Job) : Nat → Job := fun t => js.getD t (.guest [])

/-- So many steps of a thread that all go through. -/
def steps (t n : Nat) : List (Act Choice Move) :=
  List.replicate n (.run t .go)

deriving instance DecidableEq for Inner, Op

/-- The poll thread wakes up and finds the transport. -/
def pollWakes : List (Act Choice Move) :=
  [.run 0 .go, .run 0 (.wait .pending), .run 0 (.flag true)]

/-- A driver that programs a ring, kicks it and resets the device, and then
a halt with the poll thread awake. -/
theorem rings_owned_reset :
    ∃ s, system.Reach System.anyStep (start true (jobsOf
        [.guest [.setFeatures 1, .addrSet 0 (queueAt 0x1000), .notify 0,
          .reset], .halt])) s ∧
      s.sh.inner.halted = true ∧ s.sh.since 1 = 1 ∧
      (∀ r k, s.sh.rings r = some k → 1 ≤ s.sh.programmedAt r) ∧
      (s.sh.halter = some 0 ∨
        (0 : Nat) = 0 ∧ s.sh.joined = false ∧ s.sh.deleted = false) := by
  obtain ⟨s, hs, hreset, hpoll, hhalt, hearly, habort, hsince⟩ :
      ∃ s, system.Reach System.anyStep (start true (jobsOf
          [.guest [.setFeatures 1, .addrSet 0 (queueAt 0x1000), .notify 0,
            .reset], .halt])) s ∧
        (s.thr 1).head? = some (.returns .reset) ∧
        (s.thr 0).head? = some .intrStatus ∧ s.sh.inner.halted = true ∧ s.sh.early 1 = false ∧
        s.sh.aborted = false ∧ s.sh.since 1 = 1 :=
    System.exists_reach (steps 1 22 ++ steps 2 2 ++ pollWakes)
      (by decide)
  have hjobs : ∀ t, jobsOf [.guest [.setFeatures 1,
      .addrSet 0 (queueAt 0x1000), .notify 0, .reset], .halt] t ≠
      .attempt := by
    intro t
    match t with
    | 0 => nofun
    | 1 => nofun
    | t + 2 => nofun
  obtain ⟨hret, -, hreq⟩ := rings_owned true _ hjobs hs
  refine ⟨s, hs, hhalt, hsince, fun r k hk => ?_, ?_⟩
  · rw [← hsince]
    exact hret 1 .reset hreset habort hearly r rfl k hk
  · exact hreq 0 .intrStatus hpoll rfl hhalt

/-- A request by another thread than the halting one on a halted device, and
a reset that returns with an old ring in the kernel. -/
theorem rings_not_owned :
    (∃ s, system.Reach System.anyStep (start true (jobsOf [.halt])) s ∧
      s.sh.inner.halted = true ∧ s.sh.halter = some 1 ∧
      (s.thr 0).head? = some .intrStatus) ∧
    ∃ s, system.Reach System.anyStep (start false (jobsOf
        [.guest [.addrSet 0 (queueAt 0x1000), .reset], .halt])) s ∧
      (s.thr 1).head? = some (.returns .reset) ∧ s.sh.aborted = false ∧
      (s.sh.rings 0).isSome = true ∧ s.sh.programmedAt 0 < s.sh.since 1 := by
  constructor
  · apply System.exists_reach (steps 1 2 ++ pollWakes)
    decide
  · apply System.exists_reach (steps 1 6 ++ steps 2 2 ++ steps 1 2)
    decide

-- ==== rollback

theorem agrees_any {b : Bool} {m : Nat} {h : Host} {gh : Nat → Loc} (hi : Inv b m h gh) (r : Ring) :
    View.any.Agrees (h.rings r) (h.ideal r) := by
  cases howner : h.owner with
  | none => exact View.le_any _ _ _ (hi.1.free howner r)
  | some t =>
    obtain ⟨sec, hsec⟩ := Option.isSome_iff_exists.mp ((hi.2 t).owns.mpr howner)
    exact View.le_any _ _ _ (((hi.2 t).sec sec hsec).agrees r)

end Rshyve.Virtio.Viona
