/-
# viona's programs keep the rules

One lemma for each function of the device. Between a lock and its unlock the
state of an argument is `Within`: the record in hand differs from the one
found only in what a driver's call may change, and says no more about the
rings than the section knows.
-/
import Rshyve.Virtio.Proofs.VionaRules

namespace Rshyve.Virtio.Viona

open Conc Discipline Function
open Keeps (seq)

variable {b : Bool} {l : Loc} {s : Sec} {base i : Inner} {v : Ring → View}

-- ==== records

/-- The record says no more than the section knows. -/
def Fits (b : Bool) (v : Ring → View) (i : Inner) : Prop :=
  ∀ r, (v r).Le (i.view b r)

theorem fits_view (b : Bool) (i : Inner) : Fits b (i.view b) i :=
  fun _ => View.Le.refl _

/-- What a driver's call leaves alone. -/
structure Same (base i : Inner) : Prop where
  halted : i.halted = base.halted
  poller : i.poller = base.poller
  paused : i.pausedRings = base.pausedRings
  failed : i.failed = base.failed

theorem Same.refl (i : Inner) : Same i i := ⟨rfl, rfl, rfl, rfl⟩

theorem Same.setRing (h : Same base i) (r : Ring) (st : RingState) :
    Same base (i.setRing r st) := ⟨h.halted, h.poller, h.paused, h.failed⟩

theorem view_halted (h : i.halted = true) (r : Ring) : i.view b r = .any := if_pos h

variable {r : Ring} {idx : Nat} {queue : Pci.VirtQueue}

/-- A ring the kernel was never given, or gave back. -/
theorem view_gone (hh : i.halted = false) (hr : i.ringState r ≠ .ready) : i.view b r = .gone := by
  cases hst : i.ringState r with
  | init => simp [Inner.view, hh, hst]
  | error => simp [Inner.view, hh, hst]
  | ready => exact absurd hst hr

theorem view_setRing_gone (hh : i.halted = false) (r : Ring) (st : RingState) (hst : st ≠ .ready) :
    (i.setRing r st).view b r = .gone := by
  apply view_gone (i := i.setRing r st) hh
  simpa [Inner.setRing] using hst

theorem view_congr {i i' : Inner} (hh : i'.halted = i.halted)
    (hs : i'.ringState r = i.ringState r) (hf : i'.failed r = i.failed r)
    (hp : i'.pausedRings r = i.pausedRings r) : i'.view b r = i.view b r := by
  simp only [Inner.view, hh, hs, hf, hp]

theorem view_setRing_ne {r q : Ring} (h : q ≠ r) (st : RingState) :
    (i.setRing r st).view b q = i.view b q :=
  view_congr rfl (update_of_ne h _ _) rfl rfl

theorem view_setPaused_ne {r q : Ring} (h : q ≠ r) (p : PausedRing) :
    (i.setPaused r p).view b q = i.view b q :=
  view_congr rfl rfl rfl (update_of_ne h _ _)

theorem view_report_ne {r q : Ring} (h : q ≠ r) : (i.report r).view b q = i.view b q :=
  view_congr rfl rfl (update_of_ne h _ _) rfl

/-- A ring that is programmed and not reported is in the kernel. -/
theorem view_ready (hh : i.halted = false) (hr : i.ringState r = .ready) (hf : i.failed r = false) :
    i.view b r = .live ∨ (∃ st, i.view b r = .stopped (some st) ∧ b = true ∧
      i.pausedRings r = .saved st) ∨ i.view b r = .held := by
  cases hp : i.pausedRings r with
  | running => exact .inl (by simp [Inner.view, hh, hr, hf, hp])
  | lost => exact .inr (.inr (by simp [Inner.view, hh, hr, hf, hp]))
  | saved st =>
    cases b with
    | true =>
      exact .inr (.inl ⟨st, by simp [Inner.view, hh, hr, hf, hp], rfl, rfl⟩)
    | false => exact .inr (.inr (by simp [Inner.view, hh, hr, hf, hp]))

/-- A ring that is programmed and reported may be anything. -/
theorem view_reported (hh : i.halted = false) (hr : i.ringState r = .ready)
    (hf : i.failed r = true) : i.view b r = .any := by
  simp [Inner.view, hh, hr, hf]

/-- A ring the section has seen running may be marked programmed, unless a
rollback could still use a state saved for it. -/
theorem live_le_ready (hh : i.halted = false) (hr : i.ringState r = .ready)
    (hp : b = true → ∀ st, i.pausedRings r ≠ .saved st) :
    View.Le .live (i.view b r) := by
  by_cases hf : i.failed r = true
  · rw [view_reported hh hr hf]
    exact View.le_any _
  · obtain hv | ⟨st, -, hb, hs⟩ | hv :=
      view_ready (b := b) hh hr (Bool.eq_false_iff.mpr hf)
    · exact .of_eq hv.symm
    · exact absurd hs (hp hb st)
    · rw [hv]
      exact View.live_le_held

-- ==== the rings

theorem setView_sec (hs : l.sec = some s) (r : Ring) (f : View → View) : (l.setView r f).sec =
      some ⟨s.base, update s.view r (f (s.view r))⟩ := by
  simp [Loc.setView, hs]

/-- A kick is sent to rings that are programmed, and changes nothing but the
note that it was refused. -/
theorem keeps_ringKick (hs : l.sec = some s)
    (hk : ∀ r : Ring, r.val = idx → i.ringState r = .ready → s.base.halted =
      false ∧ (s.view r).kickable ∧ (s.view r = .any → b = true)) :
    (rules b).Keeps (ringKick i idx)
      (fun l' i' => l' = l ∧ ∃ f, i' = { i with kickRefused := f }) l := by
  unfold ringKick
  split
  next h =>
    dsimp only
    split
    · exact ⟨rfl, i.kickRefused, rfl⟩
    split
    · exact ⟨rfl, i.kickRefused, rfl⟩
    next hready =>
      obtain ⟨hh, hkick, hany⟩ := hk _ rfl (not_not.mp hready)
      refine seq ⟨⟨s, ⟨hs, hh⟩, hkick, hany⟩, fun a _ => ?_⟩
      cases a with
      | ok _ => exact ⟨rfl, _, rfl⟩
      | error e => exact ⟨rfl, _, rfl⟩
  · exact ⟨rfl, i.kickRefused, rfl⟩

/-- What a reset of a ring teaches: nothing if it is refused. -/
def afterReset (l : Loc) (r : Ring) : Except IoError Unit → Loc
  | .ok () => (l.setView r View.reset).free r
  | .error _ => l

theorem keeps_ringResetRetrying (hin : l.inside s) (r : Ring) (n : Nat) :
    (rules b).Keeps (ringResetRetrying r n) (fun l' rc => l' = afterReset l r rc) l := by
  induction n with
  | zero =>
    refine ⟨.inl ⟨s, hin⟩, fun a _ => ?_⟩
    cases a with
    | ok _ => rfl
    | error e => rfl
  | succ n ih =>
    refine seq ⟨.inl ⟨s, hin⟩, fun a _ => ?_⟩
    cases a with
    | ok _ => rfl
    | error e =>
      -- an interrupted reset has changed nothing
      show (rules b).Keeps (if e.interrupted then ringResetRetrying r n
        else pure (.error e)) _ l
      split
      · exact ih
      · rfl

theorem keeps_ringResetUninterrupted (hin : l.inside s) (r : Ring) :
    (rules b).Keeps (ringResetUninterrupted r) (fun l' rc => l' = afterReset l r rc) l :=
  keeps_ringResetRetrying hin r _

/-- In the middle of a driver's call that locked in `l`. -/
def Within (b : Bool) (l : Loc) (base : Inner) (l' : Loc) (i : Inner) : Prop :=
  ∃ v f, l' = { l with sec := some ⟨base, v⟩, freed := f } ∧
    (∀ r, l.freed r = true → f r = true) ∧ Same base i ∧ Fits b v i

theorem within_self (hs : l.sec = some ⟨base, v⟩) (hsame : Same base i)
    (hfits : Fits b v i) : Within b l base l i := by
  refine ⟨v, l.freed, ?_, fun _ h => h, hsame, hfits⟩
  rw [← hs]

/-- One ring's entry of a record changes with its view. -/
theorem Fits.change {i' : Inner} {w : View} (hfits : Fits b v i)
    (hw : w.Le (i'.view b r)) (hrest : ∀ q, q ≠ r → i'.view b q = i.view b q) :
    Fits b (update v r w) i' := by
  intro q
  by_cases hq : q = r
  · subst hq
    rw [update_self]
    exact hw
  · rw [update_of_ne hq, hrest q hq]
    exact hfits q

/-- A ring that is reset and then retired. -/
def retired (l : Loc) (base : Inner) (v : Ring → View) (r : Ring) : Loc :=
  { l with
    sec := some ⟨base, update v r .gone⟩
    freed := update l.freed r true }

theorem keeps_retire (hs : l.sec = some ⟨base, v⟩) (hh : base.halted = false) (r : Ring) :
    (rules b).Keeps (step (.retire r)) (fun l' _ => l' = retired l base v r)
      (afterReset l r (.ok ())) := by
  refine keeps_call.mpr ⟨⟨_, ⟨setView_sec hs r View.reset, hh⟩, ?_⟩, fun u _ => ?_⟩
  · simpa using View.empty_reset (v r)
  · cases u
    show ((l.setView r View.reset).free r).setView r (fun _ => .gone) = _
    simp [Loc.setView, Loc.free, hs, retired]

/-- Taking a ring out of a record and out of the section's view together. -/
theorem Fits.retire (hfits : Fits b v i) (hh : i.halted = false) (r : Ring) :
    Fits b (update v r .gone) (i.setRing r .init) := by
  exact hfits.change (.of_eq (view_setRing_gone hh r .init nofun).symm)
    fun q hq => view_setRing_ne hq _

theorem keeps_ringProgram (hs : l.sec = some ⟨base, v⟩)
    (hh : base.halted = false) (hsame : Same base i) (hfits : Fits b v i)
    (hv : v r = .gone) :
    (rules b).Keeps (ringProgram i r queue)
      (fun l' i' => ∃ v', l' = { l with sec := some ⟨base, v'⟩ } ∧
        Same base i' ∧ Fits b v' i') l := by
  have hih : i.halted = false := hsame.halted.trans hh
  unfold ringProgram
  split
  · exact ⟨v, by rw [← hs], hsame, hfits⟩
  refine seq ⟨⟨_, ⟨hs, hh⟩, hv⟩, fun a hcan => ?_⟩
  cases a with
  | ok u =>
    cases u
    have hpaused := hcan ⟨base, v⟩ ⟨hs, hh⟩
    refine ⟨update v r .live, ?_, hsame.setRing r .ready, ?_⟩
    · show l.setView r (fun _ => .live) = _
      simp [Loc.setView, hs]
    · refine hfits.change (live_le_ready (i := i.setRing r .ready) hih
        (update_self ..) ?_) fun q hq => view_setRing_ne hq _
      rw [← hsame.paused] at hpaused
      exact hpaused
  | error e =>
    refine ⟨v, ?_, hsame.setRing r .error, ?_⟩
    · show l = _
      rw [← hs]
    · intro q
      by_cases hq : q = r
      · subst hq
        exact .of_eq (hv.trans (view_setRing_gone hih q .error nofun).symm)
      · rw [view_setRing_ne hq]
        exact hfits q

/-- Unless the kernel refuses to let go of the old ring, the ring is the
caller's. -/
theorem keeps_ringInit (hs : l.sec = some ⟨base, base.view b⟩) (hh : base.halted = false)
    (hfree : ∀ r, base.ringState r ≠ .ready → l.freed r = true) :
    (rules b).Keeps (ringInit base idx queue) (fun l' x => Within b l base l' x.1 ∧
        (x.2 = none → ∀ r : Ring, r.val = idx → l'.freed r = true)) l := by
  have hsame := Same.refl base
  have hfits := fits_view b base
  unfold ringInit
  split
  next hlt =>
    dsimp only
    have hself : ∀ r : Ring, r.val = idx → r = ⟨idx, hlt⟩ :=
      fun r hr => Fin.ext hr
    split
    next hst =>
      refine ⟨within_self hs hsame hfits, fun _ r hr => hfree r ?_⟩
      rw [hself r hr, hst]
      decide
    next hst =>
      have hne : base.ringState ⟨idx, hlt⟩ ≠ .ready := by
        rw [hst]
        decide
      refine (keeps_ringProgram hs hh hsame hfits (view_gone hh hne)).comp ?_
      intro l' i' hpost
      obtain ⟨v', rfl, hsame', hfits'⟩ := hpost
      refine ⟨⟨v', l.freed, rfl, fun _ h => h, hsame', hfits'⟩, ?_⟩
      intro _ r hr
      rw [hself r hr]
      exact hfree _ hne
    next hst =>
      refine (keeps_ringResetUninterrupted ⟨hs, hh⟩ _).comp ?_
      intro l₁ rc hrc
      subst hrc
      cases rc with
      | error e => exact ⟨within_self hs hsame hfits, nofun⟩
      | ok u =>
        cases u
        refine (keeps_retire hs hh _).comp ?_
        intro l₂ _ hl₂
        subst hl₂
        refine (keeps_ringProgram rfl hh (hsame.setRing _ .init)
          (hfits.retire hh _) (update_self ..)).comp ?_
        intro l' i' hpost
        obtain ⟨v', rfl, hsame', hfits'⟩ := hpost
        refine ⟨⟨v', _, rfl, ?_, hsame', hfits'⟩, ?_⟩
        · intro r hr
          by_cases hq : r = ⟨idx, hlt⟩
          · simp [hq, retired]
          · simpa [retired, update_of_ne hq] using hr
        · intro _ r hr
          simp [hself r hr, retired]
  next hge =>
    refine ⟨within_self hs hsame hfits, fun _ r hr => ?_⟩
    exact absurd (hr ▸ r.isLt) hge

theorem keeps_resetRings (rs : List Ring) (hs : l.sec = some ⟨base, v⟩)
    (hh : base.halted = false) (hsame : Same base i) (hfits : Fits b v i) :
    (rules b).Keeps (resetRings i rs) (fun l' x => Within b l base l' x.1 ∧
        (x.2 = none → ∀ r ∈ rs, l'.freed r = true)) l := by
  induction rs generalizing l i v with
  | nil => exact ⟨within_self hs hsame hfits, fun _ r hr => nomatch hr⟩
  | cons r rs ih =>
    refine (keeps_ringResetUninterrupted ⟨hs, hh⟩ r).comp ?_
    intro l₁ rc hrc
    subst hrc
    cases rc with
    | error e => exact ⟨within_self hs hsame hfits, nofun⟩
    | ok u =>
      cases u
      refine (keeps_retire hs hh r).comp ?_
      intro l₂ _ hl₂
      subst hl₂
      refine (ih rfl (hsame.setRing r .init) (hfits.retire (hsame.halted.trans hh) r)).mono ?_
      rintro l' ⟨i', stuck⟩ ⟨⟨v', f, rfl, hmono, hrest⟩, hfreed⟩
      have hr : f r = true := hmono r (update_self ..)
      refine ⟨⟨v', f, rfl, fun q hq => ?_, hrest⟩, fun hn q hq => ?_⟩
      · by_cases hqr : q = r
        · rw [hqr]
          exact hr
        · refine hmono q ?_
          simpa [retired, update_of_ne hqr] using hq
      · cases hq with
        | head => exact hr
        | tail _ hq => exact hfreed hn q hq

-- ==== locking, unlocking

theorem keeps_lock (hl : l.idle) : (rules b).Keeps (step .lock)
      (fun l' i => l' = learns b l .lock i ∧ canAnswer b l .lock i) l :=
  keeps_call.mpr ⟨hl, fun _ hcan => ⟨rfl, hcan⟩⟩

/-- Outside again. A rollback ends with its section. -/
def Loc.unlocked (l : Loc) : Loc :=
  { l with
    sec := none
    stage := if l.stage = .resuming then .after else l.stage }

theorem keeps_unlock (hs : l.sec = some ⟨base, v⟩)
    (hh : i.halted = base.halted) (hw : Writes l base i)
    (hfits : Fits b v i) :
    (rules b).Keeps (step (.unlock i)) (fun l' _ => l' = l.unlocked) l := by
  refine keeps_call.mpr ⟨⟨_, hs, hw, hfits⟩, fun u _ => ?_⟩
  cases u
  show learns b l (.unlock i) () = l.unlocked
  simp [learns, hs, hh, Loc.unlocked]

/-- Every state saved is of the ring it was saved for. -/
def Indexed (i : Inner) : Prop :=
  ∀ r st, i.pausedRings r = .saved st → st.index = r

/-- Putting back a halted record, as it was found. -/
theorem keeps_unlock_halted (hs : l.sec = some ⟨base, base.view b⟩)
    (hh : base.halted = true) (hinit : ∀ r, base.ringState r = .init)
    (hx : Indexed base) :
    (rules b).Keeps (step (.unlock base)) (fun l' _ => l' = l.unlocked) l := by
  refine keeps_unlock hs rfl ?_ (fits_view b base)
  exact ⟨.inl ⟨rfl, rfl⟩, fun _ => hinit, fun _ => rfl, fun _ => rfl, fun _ => .inl hh, hx⟩

/-- Putting back what a driver's call made of a record. -/
theorem keeps_unlock_within {l' : Loc} (hw : Within b l base l' i)
    (hh : base.halted = false) (hx : Indexed base)
    (hg : l.stage = .guest) :
    (rules b).Keeps (step (.unlock i)) (fun m _ => m = l'.unlocked) l' := by
  obtain ⟨v', f, rfl, -, hsame, hfits⟩ := hw
  refine keeps_unlock rfl hsame.halted ?_ hfits
  refine ⟨.inl ⟨hsame.halted, hsame.poller⟩, fun h => ?_,
    fun _ => hsame.paused, fun _ => hsame.failed, fun h => ?_, ?_⟩
  · rw [hsame.halted, hh] at h
    cases h
  · rw [show l.stage = .resuming from h] at hg
    cases hg
  · rw [hsame.paused]
    exact hx

-- ==== the halt

theorem keeps_stopPoller {poller : Bool} (hl : l.halting = if poller then .marked else .clear) :
    (rules b).Keeps (stopPoller poller) (fun l' _ => l' = { l with halting := .clear }) l := by
  unfold stopPoller
  split
  next hpol =>
    rw [if_pos hpol] at hl
    exact seq (keeps_call.mpr ⟨hl, fun _ _ => keeps_call.mpr ⟨hl, fun _ _ => rfl⟩⟩)
  next hpol =>
    rw [if_neg hpol] at hl
    show l = _
    rw [← hl]

theorem keeps_haltLink (hs : l.sec = none) (hp : l.polling = false) (hl : l.halting = .clear) :
    (rules b).Keeps haltLink (fun l' rc => l'.idle ∧ l'.stage = l.stage ∧
        (rc = .ok () → l'.dead = true)) l := by
  -- a reset outside a section teaches nothing about views
  have hreset (l : Loc) (hs : l.sec = none) (r : Ring) (a : Except IoError Unit) :
      ∃ f, learns b l (.ringReset r) a = { l with freed := f } := by
    cases a with
    | ok u =>
      cases u
      exact ⟨_, by simp [learns, Loc.setView, Loc.free, hs]; rfl⟩
    | error e => exact ⟨l.freed, rfl⟩
  refine seq (keeps_call.mpr ⟨.inr ⟨hl, hs⟩, fun a _ => ?_⟩)
  obtain ⟨f, hf⟩ := hreset l hs 0 a
  show (rules b).Keeps _ _ (learns b l (.ringReset 0) a)
  rw [hf]
  refine seq (keeps_call.mpr ⟨.inr ⟨hl, hs⟩, fun a _ => ?_⟩)
  obtain ⟨g, hg⟩ := hreset { l with freed := f } hs 1 a
  show (rules b).Keeps _ _ (learns b { l with freed := f } (.ringReset 1) a)
  rw [hg]
  refine keeps_call.mpr ⟨⟨hl, hs⟩, fun a _ => ?_⟩
  cases a with
  | ok u =>
    cases u
    exact ⟨⟨hs, rfl, hp⟩, rfl, fun _ => rfl⟩
  | error e => exact ⟨⟨hs, rfl, hp⟩, rfl, nofun⟩

theorem keeps_destroyLink (hl : l.idle) (hst : l.stage ≠ .resuming) : (rules b).Keeps destroyLink
      (fun l' rc => l'.idle ∧ l'.stage = l.stage ∧ (rc = .ok () → l'.dead = true)) l := by
  refine (keeps_lock hl).comp ?_
  rintro l₁ base ⟨rfl, hinit, -, -, hx⟩
  split
  next hh =>
    refine (keeps_unlock_halted rfl hh (hinit hh) hx).comp ?_
    rintro l' _ rfl
    exact ⟨⟨rfl, hl.2.1, hl.2.2⟩, if_neg hst, fun _ => by
      simp [Loc.unlocked, learns_lock, hh]⟩
  next hh =>
    have hh : base.halted = false := Bool.eq_false_iff.mpr hh
    refine seq (keeps_call.mpr ⟨⟨_, rfl, ?_, ?_⟩, fun u _ => ?_⟩)
    · exact ⟨.inr ⟨hh, rfl⟩, fun _ _ => rfl, fun _ => rfl, fun _ => rfl, fun h => absurd h hst, hx⟩
    · intro r
      rw [view_halted rfl]
      exact View.le_any _
    · cases u
      refine (keeps_stopPoller ?_).comp ?_
      · simp [rules, learns, Inner.destroyed, hh]
      rintro l₂ _ hl₂
      have hsec : l₂.sec = none := by rw [hl₂]; rfl
      have hpoll : l₂.polling = false := by rw [hl₂]; exact hl.2.2
      have hstage : l₂.stage = l.stage := by rw [hl₂]; exact if_neg hst
      refine (keeps_haltLink hsec hpoll (by rw [hl₂])).mono ?_
      rintro l' rc ⟨hidle, hst', hdead⟩
      exact ⟨hidle, hst'.trans hstage, hdead⟩

theorem keeps_destroyStoppedRing (hl : l.idle) (hst : l.stage ≠ .resuming) :
    (rules b).Keeps destroyStoppedRing
      (fun l' _ => l'.idle ∧ l'.stage = l.stage ∧ l'.dead = true) l := by
  refine (keeps_destroyLink hl hst).comp ?_
  rintro l₁ rc ⟨hidle, hstage, hdead⟩
  cases rc with
  | ok u => exact ⟨hidle, hstage, hdead rfl⟩
  | error e => exact keeps_call.mpr ⟨hidle, fun _ _ => ⟨hidle, hstage, rfl⟩⟩

theorem keeps_halt (hl : l.idle) (hst : l.stage ≠ .resuming) :
    (rules b).Keeps halt (fun l' _ => l'.idle ∧ l'.stage = l.stage) l := by
  refine (keeps_destroyLink hl hst).comp ?_
  rintro l' rc ⟨hidle, hstage, -⟩
  exact ⟨hidle, hstage⟩

-- ==== the driver's calls

/-- A driver's call is over: the rings it retires are the driver's, or there
is no link. -/
def Returned (c : Call) (l : Loc) : Prop :=
  l.idle ∧ l.stage = .guest ∧ (l.dead = true ∨ ∀ r, c.retires r = true → l.freed r = true)

/-- Every call ends at once on a device that is halted. -/
theorem keeps_halted (hl : l.idle) (hg : l.stage = .guest) {c : Call}
    (hh : base.halted = true) (hinit : ∀ r, base.ringState r = .init)
    (hx : Indexed base) :
    (rules b).Keeps (step (.unlock base)) (fun l' _ => Returned c l') (learns b l .lock base) := by
  refine (keeps_unlock_halted rfl hh hinit hx).mono ?_
  rintro l' _ rfl
  refine ⟨⟨rfl, hl.2.1, hl.2.2⟩, ?_, .inl ?_⟩
  · simp [Loc.unlocked, learns_lock, hg]
  · simp [Loc.unlocked, learns_lock, hh]

/-- The end of a call that hands rings back: give up the lock, and destroy
the link if the kernel kept one of them. -/
theorem keeps_handBack {c : Call} {l' : Loc} {stuck : Option (Ring × IoError)}
    (hidle : l.halting = .no ∧ l.polling = false) (hg : l.stage = .guest)
    (hh : base.halted = false) (hx : Indexed base)
    (hw : Within b l base l' i)
    (hfreed : stuck = none → ∀ r, c.retires r = true → l'.freed r = true) :
    (rules b).Keeps (do
        step (.unlock i)
        match stuck with
        | none => pure ()
        | some _ => destroyStoppedRing) (fun m _ => Returned c m) l' := by
  have hl' : l'.halting = .no ∧ l'.polling = false ∧ l'.stage = .guest := by
    obtain ⟨v', f, rfl, -⟩ := hw
    exact ⟨hidle.1, hidle.2, hg⟩
  refine (keeps_unlock_within hw hh hx hg).comp ?_
  rintro l₁ _ rfl
  have hout : l'.unlocked.idle := ⟨rfl, hl'.1, hl'.2.1⟩
  have hstage : l'.unlocked.stage = .guest := by
    simp [Loc.unlocked, hl'.2.2]
  cases stuck with
  | none => exact ⟨hout, hstage, .inr (hfreed rfl)⟩
  | some x =>
    refine (keeps_destroyStoppedRing hout (by simp [hstage])).mono ?_
    rintro m _ ⟨hm, hms, hdead⟩
    exact ⟨hm, hms.trans hstage, .inl hdead⟩

/-- What the record says about kicks: a ring is marked programmed only if
the kernel has it. -/
theorem kickable_found (hinit : base.halted = true → ∀ r, base.ringState r = .init)
    (hfailed : b = false → ∀ r, base.failed r = false) (r : Ring)
    (hr : base.ringState r = .ready) :
    base.halted = false ∧ (base.view b r).kickable ∧ (base.view b r = .any → b = true) := by
  have hh : base.halted = false := by
    cases hb : base.halted with
    | false => rfl
    | true =>
      rw [hinit hb r] at hr
      cases hr
  by_cases hf : base.failed r = true
  · rw [view_reported hh hr hf]
    refine ⟨hh, trivial, fun _ => ?_⟩
    cases b with
    | true => rfl
    | false =>
      rw [hfailed rfl r] at hf
      cases hf
  · obtain hv | ⟨st, hv, -⟩ | hv :=
      view_ready (b := b) hh hr (Bool.eq_false_iff.mpr hf) <;> rw [hv] <;>
        exact ⟨hh, trivial, nofun⟩

section

variable (hl : l.idle) (hg : l.stage = .guest)
include hl hg

theorem keeps_queueAddrSet : (rules b).Keeps (queueAddrSet idx queue)
      (fun l' _ => Returned (.addrSet idx queue) l') l := by
  refine (keeps_lock hl).comp ?_
  rintro l₁ base ⟨rfl, hinit, -, -, hx⟩
  split
  next hh => exact keeps_halted hl hg hh (hinit hh) hx
  next hh =>
    have hh : base.halted = false := Bool.eq_false_iff.mpr hh
    refine (keeps_ringInit rfl hh ?_).comp ?_
    · intro r hr
      simp [learns_lock, view_gone hh hr, View.isGone]
    · rintro l' ⟨i', stuck⟩ ⟨hw, hfreed⟩
      refine keeps_handBack (l := learns b l .lock base) hl.2 hg hh hx hw
        fun hn r hr => hfreed hn r ?_
      simpa [Call.retires] using hr

theorem keeps_reset : (rules b).Keeps reset (fun l' _ => Returned .reset l') l := by
  refine (keeps_lock hl).comp ?_
  rintro l₁ base ⟨rfl, hinit, -, -, hx⟩
  split
  next hh => exact keeps_halted hl hg hh (hinit hh) hx
  next hh =>
    have hh : base.halted = false := Bool.eq_false_iff.mpr hh
    have hsame : Same base { base with
        negotiatedFeatures := 0, kickRefused := fun _ => false } :=
      ⟨rfl, rfl, rfl, rfl⟩
    refine (keeps_resetRings (l := learns b l .lock base) [0, 1]
      rfl hh hsame (fits_view b base)).comp ?_
    rintro l' ⟨i', stuck⟩ ⟨hw, hfreed⟩
    refine keeps_handBack (l := learns b l .lock base) hl.2 hg hh hx hw fun hn r _ => hfreed hn r ?_
    revert r
    decide

theorem keeps_setFeatures {f : BitVec 64} : (rules b).Keeps (Viona.setFeatures f)
      (fun l' _ => Returned (.setFeatures f) l') l := by
  refine (keeps_lock hl).comp ?_
  rintro l₁ base ⟨rfl, hinit, -, -, hx⟩
  split
  next hh => exact keeps_halted hl hg hh (hinit hh) hx
  next hh =>
    have hh : base.halted = false := Bool.eq_false_iff.mpr hh
    refine seq (keeps_call.mpr ⟨⟨_, rfl, hh⟩, fun _ _ => ?_⟩)
    have hsame : Same base { base with negotiatedFeatures := f } :=
      ⟨rfl, rfl, rfl, rfl⟩
    refine (keeps_unlock_within (l := learns b l .lock base)
      (within_self rfl hsame (fits_view b base)) hh hx hg).mono ?_
    rintro l' _ rfl
    exact ⟨⟨rfl, hl.2.1, hl.2.2⟩, by simp [Loc.unlocked, learns_lock, hg], .inr nofun⟩

theorem keeps_notifyQueue : (rules b).Keeps (notifyQueue idx)
      (fun l' _ => Returned (.notify idx) l') l := by
  refine (keeps_lock hl).comp ?_
  rintro l₁ base ⟨rfl, hinit, -, hfailed, hx⟩
  refine (keeps_ringKick rfl fun r _ => kickable_found hinit hfailed r).comp ?_
  rintro l₂ i ⟨rfl, f, rfl⟩
  have hsame : Same base { base with kickRefused := f } :=
    ⟨rfl, rfl, rfl, rfl⟩
  refine (keeps_unlock (l := learns b l .lock base) rfl hsame.halted
    ⟨.inl ⟨rfl, rfl⟩, hinit, fun _ => rfl, fun _ => rfl, fun h => ?_, hx⟩
    (fits_view b base)).mono ?_
  · rw [show l.stage = .resuming from h] at hg
    cases hg
  · rintro l' _ rfl
    exact ⟨⟨rfl, hl.2.1, hl.2.2⟩, by simp [Loc.unlocked, learns_lock, hg], .inr nofun⟩

end

theorem keeps_body (c : Call) (hl : l.idle) (hg : l.stage = .guest) :
    (rules b).Keeps c.body (fun l' _ => Returned c l') l := by
  cases c with
  | setFeatures f => exact keeps_setFeatures hl hg
  | notify idx => exact keeps_notifyQueue hl hg
  | addrSet idx queue => exact keeps_queueAddrSet hl hg
  | reset => exact keeps_reset hl hg

theorem keeps_guest (calls : List Call) (hl : l.idle) (hg : l.stage = .guest) :
    (rules b).Keeps (guest calls) (fun l' _ => l'.idle ∧ l'.stage = .guest) l := by
  induction calls generalizing l with
  | nil => exact ⟨hl, hg⟩
  | cons c cs ih =>
    refine seq (keeps_call.mpr ⟨hl, fun _ _ => ?_⟩)
    refine (keeps_body (l := learns b l (.begins c) ()) c hl hg).comp ?_
    rintro l' _ ⟨hidle, hstage, hret⟩
    refine seq (keeps_call.mpr ⟨⟨hidle, hret⟩, fun _ _ => ?_⟩)
    exact ih hidle hstage

-- ==== a migration

theorem view_setPaused_gone (hh : i.halted = false) (hr : i.ringState r ≠ .ready) (p : PausedRing) :
    (i.setPaused r p).view b r = .gone :=
  view_gone (i := i.setPaused r p) hh hr

/-- A ring whose state was read after its pause. -/
theorem saved_le (hh : i.halted = false) (hf : i.failed r = false) (st : VringState) :
    (((i.view b r).pause).learn st).Le ((i.setPaused r (.saved st)).view b r) := by
  by_cases hr : i.ringState r = .ready
  · have hv : ((i.view b r).pause).learn st = .stopped (some st) := by
      obtain hv | ⟨st', hv, -⟩ | hv := view_ready (b := b) hh hr hf <;> rw [hv] <;> rfl
    rw [hv]
    cases b with
    | true =>
      exact .of_eq (by simp [Inner.view, Inner.setPaused, hh, hr, hf])
    | false =>
      have hw : (i.setPaused r (.saved st)).view false r = .held := by
        simp [Inner.view, Inner.setPaused, hh, hr, hf]
      rw [hw]
      exact View.stopped_le_held _
  · exact .of_eq (by rw [view_gone hh hr, view_setPaused_gone hh hr]; rfl)

/-- A ring whose state could not be read after its pause. -/
theorem lost_le (hh : i.halted = false) (hf : i.failed r = false) :
    ((i.view b r).pause).Le ((i.setPaused r .lost).view b r) := by
  by_cases hr : i.ringState r = .ready
  · have hw : (i.setPaused r .lost).view b r = .held := by
      simp [Inner.view, Inner.setPaused, hh, hr, hf]
    rw [hw]
    obtain hv | ⟨st', hv, -⟩ | hv := view_ready (b := b) hh hr hf <;>
      rw [hv] <;> exact View.stopped_le_held _
  · exact .of_eq (by rw [view_gone hh hr, view_setPaused_gone hh hr]; rfl)

/-- What a pause leaves alone. -/
structure SameButPaused (base i : Inner) : Prop where
  halted : i.halted = base.halted
  poller : i.poller = base.poller
  failed : i.failed = base.failed

theorem Indexed.setPaused (hx : Indexed i) (r : Ring) {p : PausedRing}
    (hp : ∀ st, p = .saved st → st.index = r) : Indexed (i.setPaused r p) := by
  intro q st hq
  change update i.pausedRings r p q = .saved st at hq
  by_cases hqr : q = r
  · subst hqr
    rw [update_self] at hq
    exact hp st hq
  · rw [update_of_ne hqr] at hq
    exact hx q st hq

theorem SameButPaused.setPaused (h : SameButPaused base i) (r : Ring)
    (p : PausedRing) : SameButPaused base (i.setPaused r p) :=
  ⟨h.halted, h.poller, h.failed⟩

theorem keeps_pauseFrom {rs : List Ring} (hnd : rs.Nodup)
    (hs : l.sec = some ⟨base, v⟩) (hh : base.halted = false)
    (hf : ∀ r, base.failed r = false) (hsame : SameButPaused base i)
    (hx : Indexed i) (hexact : ∀ r ∈ rs, v r = i.view b r)
    (hfits : Fits b v i) :
    (rules b).Keeps (pauseFrom i rs) (fun l' x => ∃ v', l' = { l with sec := some ⟨base, v'⟩ } ∧
        SameButPaused base x.1 ∧ Indexed x.1 ∧ Fits b v' x.1) l := by
  induction rs generalizing l i v with
  | nil => exact ⟨v, by rw [← hs], hsame, hx, hfits⟩
  | cons r rs ih =>
    have hih : i.halted = false := hsame.halted.trans hh
    have hif : i.failed r = false := by
      rw [hsame.failed]
      exact hf r
    have hv := hexact r List.mem_cons_self
    refine seq (keeps_call.mpr ⟨⟨_, hs, hh⟩, fun a _ => ?_⟩)
    cases a with
    | error e => exact ⟨v, by rw [← hs]; rfl, hsame, hx, hfits⟩
    | ok u =>
      cases u
      have hs₁ := setView_sec hs r View.pause
      refine seq (keeps_call.mpr ⟨⟨_, hs₁, hh⟩, fun a ha => ?_⟩)
      cases a with
      | error e =>
        refine ⟨_, ?_, hsame.setPaused r .lost,
          hx.setPaused r nofun, hfits.change (w := (v r).pause) ?_
            fun q hq => view_setPaused_ne hq _⟩
        · show l.setView r View.pause = _
          simp [Loc.setView, hs]
        · rw [hv]
          exact lost_le hih hif
      | ok st =>
        have hs₂ := setView_sec hs₁ r (View.learn st)
        simp only [update_self, update_idem] at hs₂
        refine (ih (List.nodup_cons.mp hnd).2 hs₂ (hsame.setPaused r (.saved st)) ?_ ?_ ?_).mono ?_
        · refine hx.setPaused r fun st' hst => ?_
          obtain rfl := PausedRing.saved.inj hst
          exact ha
        · intro q hq
          have hqr : q ≠ r := fun h =>
            (List.nodup_cons.mp hnd).1 (h ▸ hq)
          rw [update_of_ne hqr, view_setPaused_ne hqr]
          exact hexact q (List.mem_cons_of_mem r hq)
        · refine hfits.change ?_ fun q hq => view_setPaused_ne hq _
          rw [hv]
          exact saved_le hih hif st
        · rintro l' x ⟨v', rfl, hrest⟩
          exact ⟨v', by simp [Loc.setView], hrest⟩

theorem keeps_pauseRings (hl : l.idle) (hg : l.stage = .fresh) : (rules b).Keeps pauseRings
      (fun l' _ => l'.idle ∧ l'.stage = .fresh) l := by
  refine (keeps_lock hl).comp ?_
  rintro l₁ base ⟨rfl, hinit, hfailed, -, hx⟩
  split
  next hh =>
    refine (keeps_unlock_halted rfl hh (hinit hh) hx).comp ?_
    rintro l' _ rfl
    exact ⟨⟨rfl, hl.2.1, hl.2.2⟩, by simp [Loc.unlocked, learns_lock, hg]⟩
  next hh =>
    have hh : base.halted = false := Bool.eq_false_iff.mpr hh
    refine (keeps_pauseFrom (l := learns b l .lock base)
      (by decide : [(0 : Ring), 1].Nodup) rfl hh (hfailed (.inl hg)) ⟨rfl, rfl, rfl⟩
      hx (fun _ _ => rfl) (fits_view b base)).comp ?_
    rintro l' ⟨i', result⟩ ⟨v', rfl, hsame, hx', hfits⟩
    refine (keeps_unlock rfl hsame.halted ?_ hfits).comp ?_
    · refine ⟨.inl ⟨hsame.halted, hsame.poller⟩, fun h => ?_, fun h => ?_,
        fun _ => hsame.failed, fun h => ?_, hx'⟩
      · rw [hsame.halted, hh] at h
        cases h
      · have h : l.stage = .guest ∨ l.stage = .after := h
        rw [hg] at h
        rcases h with h | h <;> cases h
      · rw [show l.stage = .resuming from h] at hg
        cases hg
    · rintro l' _ rfl
      exact ⟨⟨rfl, hl.2.1, hl.2.2⟩, by simp [Loc.unlocked, learns_lock, hg]⟩

/-- What the rollback of one ring leaves alone. -/
structure Resumed (r : Ring) (i i' : Inner) : Prop where
  halted : i'.halted = i.halted
  poller : i'.poller = i.poller
  running : i'.pausedRings r = .running
  paused : ∀ q, q ≠ r → i'.pausedRings q = i.pausedRings q
  failed : ∀ q, q ≠ r → i'.failed q = i.failed q
  view : ∀ q, q ≠ r → i'.view true q = i.view true q

theorem resumed_take (r : Ring) (i : Inner) : Resumed r i (i.setPaused r .running) where
  halted := rfl
  poller := rfl
  running := update_self ..
  paused _ hq := update_of_ne hq ..
  failed _ _ := rfl
  view _ hq := view_setPaused_ne hq _

theorem resumed_report (r : Ring) (i : Inner) :
    Resumed r i ((i.setPaused r .running).report r) where
  halted := rfl
  poller := rfl
  running := update_self ..
  paused _ hq := update_of_ne hq ..
  failed _ hq := update_of_ne hq ..
  view q hq := by
    rw [view_report_ne hq]
    exact view_setPaused_ne hq _

/-- A ring that is reported may be anything that is not another ring. -/
theorem reported_le (hh : i.halted = false) (hr : i.ringState r = .ready)
    (w : View) : w.Le (((i.setPaused r .running).report r).view true r) := by
  rw [view_reported (i := (i.setPaused r .running).report r) hh hr (update_self ..)]
  exact w.le_any

/-- The rollback of one ring, from a record that is right about it. -/
theorem keeps_resumeRing (r : Ring) (hs : l.sec = some ⟨base, v⟩)
    (hh : base.halted = false) (hih : i.halted = base.halted)
    (hf : i.failed r = false) (hx : Indexed i)
    (hv : v r = i.view true r) :
    (rules true).Keeps (resumeRing i r) (fun l' x => ∃ w f, l' = { l with
          sec := some ⟨base, update v r w⟩, freed := f } ∧
        w.Le (x.1.view true r) ∧ Resumed r i x.1) l := by
  have hih' : i.halted = false := hih.trans hh
  have hself : l = { l with
      sec := some ⟨base, update v r (v r)⟩, freed := l.freed } := by
    rw [update_eq_self, ← hs]
  unfold resumeRing
  split
  next hp =>
    refine ⟨v r, l.freed, hself, ?_, resumed_take r i⟩
    refine .of_eq (hv.trans (Eq.symm ?_))
    exact view_congr rfl rfl rfl ((update_self ..).trans hp.symm)
  next hp =>
    refine ⟨v r, l.freed, hself, ?_, resumed_report r i⟩
    by_cases hr : i.ringState r = .ready
    · exact reported_le hih' hr _
    · rw [hv, view_gone hih' hr]
      exact .of_eq (view_gone (i := (i.setPaused r .running).report r) hih' hr).symm
  next st hp =>
    split
    next hr =>
      refine ⟨v r, l.freed, hself, ?_, resumed_take r i⟩
      rw [hv, view_gone hih' hr]
      exact .of_eq (view_setPaused_gone hih' hr _).symm
    next hr =>
      have hr : i.ringState r = .ready := not_not.mp hr
      have hstop : v r = .stopped (some st) := by
        rw [hv]
        simp [Inner.view, hih', hr, hf, hp]
      have hidx : st.index = r := hx r st hp
      refine seq (keeps_call.mpr ⟨.inl ⟨_, hs, hh⟩, fun a _ => ?_⟩)
      cases a with
      | error e =>
        exact ⟨v r, l.freed, hself, reported_le hih' hr _, resumed_report r i⟩
      | ok u =>
        cases u
        have hs₁ : (afterReset l r (.ok ())).sec = some ⟨base, update v r (.bare (some st))⟩ := by
          show (l.setView r View.reset).sec = _
          rw [setView_sec hs]
          dsimp only
          rw [hstop]
          rfl
        refine seq (keeps_call.mpr ⟨⟨_, ⟨hs₁, hh⟩, rfl, ?_⟩, fun a _ => ?_⟩)
        · rw [hidx]
          exact update_self ..
        cases a with
        | error e =>
          refine ⟨.bare (some st), update l.freed r true, ?_,
            reported_le hih' hr _, resumed_report r i⟩
          rw [← hs₁]
          rfl
        | ok u =>
          cases u
          have hs₂ := setView_sec hs₁ st.index (fun _ => .live)
          rw [hidx, update_idem] at hs₂
          refine (keeps_ringKick (l := (afterReset l r (.ok ())).setView st.index
              fun _ => .live) (by rw [hidx]; exact hs₂) ?_).comp ?_
          · intro q hq _
            obtain rfl : q = r := Fin.ext hq
            dsimp only
            rw [update_self]
            exact ⟨hh, trivial, nofun⟩
          · rintro l' i' ⟨rfl, f, rfl⟩
            refine ⟨.live, update l.freed r true, ?_, ?_, ?_⟩
            · rw [hidx, ← hs₂]
              rfl
            · exact .of_eq (by simp [Inner.view, Inner.setPaused, hih', hr, hf])
            · obtain ⟨h1, h2, h3, h4, h5, h6⟩ := resumed_take r i
              exact ⟨h1, h2, h3, h4, h5, h6⟩

theorem ring_eq_zero (h : r ≠ 1) : r = 0 := by
  revert r
  decide

theorem keeps_resumeRings (hl : l.idle) (hg : l.stage = .resuming) : (rules true).Keeps resumeRings
      (fun l' _ => l'.idle ∧ l'.stage = .after) l := by
  refine (keeps_lock hl).comp ?_
  rintro l₁ base ⟨rfl, hinit, hfailed, -, hx⟩
  split
  next hh =>
    refine (keeps_unlock_halted rfl hh (hinit hh) hx).comp ?_
    rintro l' _ rfl
    exact ⟨⟨rfl, hl.2.1, hl.2.2⟩, by simp [Loc.unlocked, learns_lock, hg]⟩
  next hh =>
    have hh : base.halted = false := Bool.eq_false_iff.mpr hh
    have hf := hfailed (.inr hg)
    refine (keeps_resumeRing (l := learns true l .lock base) 0 rfl hh rfl (hf 0) hx rfl).comp ?_
    rintro l₁ ⟨i₁, rx⟩ ⟨w₀, f₀, rfl, hw₀, hr₀⟩
    have hx₁ : Indexed i₁ := by
      intro q st hq
      by_cases hq0 : q = 0
      · rw [hq0, show i₁.pausedRings 0 = .running from hr₀.running] at hq
        cases hq
      · rw [show i₁.pausedRings q = _ from hr₀.paused q hq0] at hq
        exact hx q st hq
    have hne : (1 : Ring) ≠ 0 := by decide
    have hf₁ : i₁.failed 1 = false := (hr₀.failed 1 hne).trans (hf 1)
    refine (keeps_resumeRing 1 rfl hh hr₀.halted hf₁ hx₁ ?_).comp ?_
    · rw [update_of_ne hne]
      exact (hr₀.view 1 hne).symm
    rintro l₂ ⟨i₂, tx⟩ ⟨w₁, f₁, rfl, hw₁, hr₁⟩
    have hrunning : ∀ r, i₂.pausedRings r = .running := by
      intro r
      by_cases hr : r = 1
      · rw [hr]
        exact hr₁.running
      · obtain rfl := ring_eq_zero hr
        exact (hr₁.paused 0 hr).trans hr₀.running
    refine (keeps_unlock rfl (hr₁.halted.trans hr₀.halted) ?_ ?_).comp ?_
    · refine ⟨.inl ⟨hr₁.halted.trans hr₀.halted,
        hr₁.poller.trans hr₀.poller⟩, fun h => ?_, fun h => ?_,
        fun h => absurd hg h, fun _ => .inr hrunning, fun r st h => ?_⟩
      · rw [show i₂.halted = base.halted from
          hr₁.halted.trans hr₀.halted, hh] at h
        cases h
      · have h : l.stage = .guest ∨ l.stage = .after := h
        rw [hg] at h
        rcases h with h | h <;> cases h
      · rw [show i₂.pausedRings r = .running from hrunning r] at h
        cases h
    · intro r
      by_cases hr : r = 1
      · subst hr
        rw [update_self]
        exact hw₁
      · obtain rfl := ring_eq_zero hr
        rw [update_of_ne hr, update_self]
        rw [show i₂.view true 0 = i₁.view true 0 from hr₁.view 0 hr]
        exact hw₀
    · rintro l₃ _ rfl
      have hend : (l.stage = .resuming) := hg
      split <;> exact ⟨⟨rfl, hl.2.1, hl.2.2⟩, by simp [Loc.unlocked, learns_lock, hend]⟩

theorem keeps_attempt (hl : l.idle) (hg : l.stage = .fresh) :
    (rules true).Keeps attempt (fun l' _ => l'.idle ∧ l'.stage = .after) l := by
  refine (keeps_pauseRings hl hg).comp ?_
  rintro l₁ _ ⟨hidle, hstage⟩
  refine seq (keeps_call.mpr ⟨⟨hidle, rfl, hstage⟩, fun u _ => ?_⟩)
  cases u
  refine (keeps_resumeRings (l := { l₁ with stage := .resuming }) hidle rfl).comp ?_
  intro l' _ h
  exact h

-- ==== the poll thread

def Polls (l : Loc) : Prop := l.polling = true ∧ l.stage = .guest

theorem stays_poll (o : Op) (ho : ∀ l : Loc, l.polling = true → mayIssue b l o)
    (hn : ∀ l a, learns b l o a = l) :
    (rules b).Stays Polls (step o) := by
  intro l hl
  refine keeps_call.mpr ⟨ho l hl.1, fun a _ => ?_⟩
  show Polls (learns b l o a)
  rw [hn]
  exact hl

theorem stays_deliverRings (status : Ring → BitVec 32) (rs : List Ring) :
    (rules b).Stays Polls (deliverRings status rs) := by
  induction rs with
  | nil => exact stays_ret
  | cons r rs ih =>
    unfold deliverRings
    split
    · exact ih
    · refine (stays_poll (.ringIntrClr r) (fun _ h => h) fun _ _ => rfl).seq fun _ => ?_
      exact (stays_poll (.raise r) (fun _ h => h) fun _ _ => rfl).seq fun _ => ih

theorem stays_deliverPending : (rules b).Stays Polls deliverPending := by
  refine (stays_poll .slot (fun _ h => h) fun _ _ => rfl).seq fun up => ?_
  split
  · exact stays_ret
  · refine (stays_poll .intrStatus (fun _ h => h) fun _ _ => rfl).seq fun st => ?_
    split
    · exact stays_ret
    · exact stays_deliverRings _ _

theorem stays_intrPollLoop : (rules b).Stays Polls intrPollLoop := by
  refine stays_loop fun _ => ?_
  refine (stays_poll .waitIntr (fun _ h => h) fun _ _ => rfl).seq fun w => ?_
  split
  · exact stays_deliverPending.seq fun _ => stays_ret
  · exact stays_ret
  · exact stays_ret

theorem keeps_pollThread (hl : Polls l) :
    (rules b).Keeps pollThread (fun l' _ => l'.stage = .guest) l := by
  refine (stays_intrPollLoop l hl).comp fun l' _ h => ?_
  exact keeps_call.mpr ⟨h.1, fun _ _ => h.2⟩

end Rshyve.Virtio.Viona
