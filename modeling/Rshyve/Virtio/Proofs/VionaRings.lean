/-
# Who has viona's rings

The invariant that ties the kernel's rings to the record, the threads and the
driver. `Shared` is about the device alone; `Per` says for one thread that
what it believes is so. A step of one thread has to keep `Per` of the others,
which is mostly a matter of the lock: in a section, all others are outside
theirs.
-/
import Rshyve.Virtio.Proofs.VionaPrograms

namespace Rshyve.Virtio.Viona

open Conc Function

-- ==== views, moved

variable {st : VringState} {r : Ring}

namespace View

variable {v : View} {k : Option KRing} {o : Option VringState}

theorem agrees_reset (h : v.Agrees k o) : v.reset.Agrees none o := by
  cases v with
  | gone => exact ⟨rfl, h.2⟩
  | bare _ => exact ⟨rfl, h.2⟩
  | stopped known =>
    obtain ⟨st, -, hid, hknown⟩ := h
    refine ⟨rfl, fun s hs => ?_⟩
    rw [hknown s hs]
    exact hid
  | _ => exact ⟨rfl, nofun⟩

theorem agrees_pause (h : v.Agrees k o) :
    v.pause.Agrees (k.map fun kr => { kr with stopped := true }) o := by
  cases v with
  | gone =>
    obtain ⟨rfl, hid⟩ := h
    exact ⟨rfl, hid⟩
  | bare _ =>
    obtain ⟨rfl, hid⟩ := h
    exact ⟨rfl, hid⟩
  | live =>
    obtain ⟨st, rfl, hid⟩ := h
    exact ⟨st, rfl, hid, nofun⟩
  | stopped _ =>
    obtain ⟨st, rfl, hid⟩ := h
    exact ⟨st, rfl, hid⟩
  | held =>
    obtain ⟨kr, rfl, hid⟩ := h
    exact ⟨kr.state, rfl, hid, nofun⟩
  | any =>
    intro kr hkr
    obtain ⟨kr', hk', rfl⟩ := Option.map_eq_some_iff.mp hkr
    exact h kr' hk'

theorem agrees_learn (st : VringState) (h : v.Agrees k o)
    (hst : ∀ kr, k = some kr → st = kr.state) : (v.learn st).Agrees k o := by
  cases v with
  | stopped _ =>
    obtain ⟨st', rfl, hid, -⟩ := h
    refine ⟨st', rfl, hid, fun s hs => ?_⟩
    rw [← Option.some.inj hs]
    exact hst _ rfl
  | _ => exact h

theorem agrees_retire (h : v.Agrees k o) (he : v.empty) : View.gone.Agrees k none := by
  cases v with
  | gone => exact ⟨h.1, rfl⟩
  | bare _ => exact ⟨h.1, rfl⟩
  | _ => cases he

/-- A worker moves its ring and the driver's together. -/
theorem agrees_move (f : VringState → VringState) (h : v.Agrees (some ⟨st, false⟩) o) :
    v.Agrees (some ⟨f st, false⟩) (o.map f) := by
  cases v with
  | gone => cases h.1
  | bare _ => cases h.1
  | live =>
    obtain ⟨st', hst, rfl⟩ := h
    cases hst
    exact ⟨f st, rfl, rfl⟩
  | stopped _ =>
    obtain ⟨st', hst, -⟩ := h
    cases hst
  | held =>
    obtain ⟨kr, hkr, rfl⟩ := h
    cases hkr
    exact ⟨⟨f st, false⟩, rfl, rfl⟩
  | any =>
    intro kr hkr
    rw [← Option.some.inj hkr, h ⟨st, false⟩ rfl]
    rfl

end View

-- ==== the invariant

/-- The device. -/
structure Shared (b : Bool) (h : Host) : Prop where
  free : h.owner = none → ∀ r, (h.inner.view b r).Agrees (h.rings r) (h.ideal r)
  init : h.inner.halted = true → ∀ r, h.inner.ringState r = .init
  indexed : Indexed h.inner
  rings : ∀ r k, h.rings r = some k → k.state.index = r
  failed : b = false → ∀ r, h.inner.failed r = false
  poller : h.inner.halted = false → h.inner.poller = false → h.polled = true
  deleted : h.deleted = true → h.inner.halted = true ∧ h.polled = true ∧ ∀ r, h.rings r = none
  joined : h.joined = true → h.polled = true
  clock : ∀ t, h.since t ≤ h.clock

/-- What a section knows is so. -/
structure Holds (i : Inner) (rings : Ring → Option KRing)
    (ideal : Ring → Option VringState) (s : Sec) : Prop where
  base : i = s.base
  blind : s.base.halted = true → ∀ r, s.view r = .any
  agrees : ∀ r, (s.view r).Agrees (rings r) (ideal r)

/-- A migration's own thread is `m`. -/
def StageOk (b : Bool) (m : Nat) (i : Inner) (t : Nat) : Stage → Prop
  | .guest => b = true → t ≠ m
  | .fresh => (b = true → t = m) ∧ ∀ r, i.failed r = false
  | .resuming => b = true ∧ t = m ∧ ∀ r, i.failed r = false
  | .after => b = true ∧ t = m ∧ (i.halted = true ∨ ∀ r, i.pausedRings r = .running)

/-- One thread. -/
structure Per (b : Bool) (m : Nat) (h : Host) (t : Nat) (l : Loc) :
    Prop where
  owns : l.sec.isSome = true ↔ h.owner = some t
  sec : ∀ s, l.sec = some s → Holds h.inner h.rings h.ideal s
  stage : StageOk b m h.inner t l.stage
  halt : l.halting ≠ .no → h.inner.halted = true ∧ h.halter = some t
  clear : l.halting = .clear → h.polled = true
  poll : l.polling = true → t = 0 ∧ h.polled = false
  freed : b = false → ∀ r, l.freed r = true → h.rings r ≠ none → h.since t ≤ h.programmedAt r
  dead : l.dead = true → h.early t = true ∨ h.deleted = true ∨ h.aborted = true

def Inv (b : Bool) (m : Nat) (h : Host) (gh : Nat → Loc) : Prop :=
  Shared b h ∧ ∀ t, Per b m h t (gh t)

variable {b : Bool} {m t : Nat} {h : Host} {gh : Nat → Loc} {s : Sec}
  {l : Loc} {h' : Host} {c : Choice}

theorem inv_update (hsh : Shared b h) (ht : Per b m h t l) (hu : ∀ u, u ≠ t → Per b m h u (gh u)) :
    Inv b m h (update gh t l) :=
  ⟨hsh, (forall_update_iff gh fun u l => Per b m h u l).mpr ⟨ht, hu⟩⟩

/-- The rings change while the thread is outside. -/
theorem Per.outside {u : Nat} (hp : Per b m h u l) (hs : l.sec = none)
    {rings : Ring → Option KRing} {ideal : Ring → Option VringState}
    {clock : Nat} {at' : Ring → Nat}
    (hf : b = false → ∀ r, l.freed r = true → rings r ≠ none → h.since u ≤ at' r) :
    Per b m { h with
      rings := rings, ideal := ideal, clock := clock, programmedAt := at' }
      u l := by
  refine { hp with sec := fun s hsec => ?_, freed := hf }
  rw [hs] at hsec
  cases hsec

variable {base i : Inner}

/-- A section's changes are within the rights of its own migration. -/
theorem StageOk.write {u : Nat} {st : Stage}
    (ht : StageOk b m base t l.stage) (hw : Writes l base i) (hu : u ≠ t)
    (h : StageOk b m base u st) : StageOk b m i u st := by
  have hmono : base.halted = true → i.halted = true := fun hh => by
    rcases hw.marks with h1 | h2
    · exact h1.1.trans hh
    · exact h2.2
  -- with a rollback about, this thread is not the one that migrates
  have hguest : b = true → u = m → l.stage = .guest := fun hb hum => by
    subst hum
    cases hst : l.stage with
    | guest => rfl
    | fresh =>
      rw [hst] at ht
      exact absurd (ht.1 hb).symm hu
    | resuming =>
      rw [hst] at ht
      exact absurd ht.2.1.symm hu
    | after =>
      rw [hst] at ht
      exact absurd ht.2.1.symm hu
  have hfailed : (b = true → u = m) → i.failed = base.failed := fun hum => by
    apply hw.failed
    intro hst
    rw [hst] at ht
    exact hu ((hum ht.1).trans ht.2.1.symm)
  cases st with
  | guest => exact h
  | fresh =>
    refine ⟨h.1, ?_⟩
    rw [hfailed h.1]
    exact h.2
  | resuming =>
    refine ⟨h.1, h.2.1, ?_⟩
    rw [hfailed fun _ => h.2.1]
    exact h.2.2
  | after =>
    refine ⟨h.1, h.2.1, ?_⟩
    rw [hw.paused (.inl (hguest h.1 h.2.1))]
    exact h.2.2.imp_left hmono

/-- The writer's own migration goes on, and ends with a rollback. -/
theorem StageOk.writer (ht : StageOk b m base t l.stage) (hw : Writes l base i) :
    StageOk b m i t (if l.stage = .resuming then .after else l.stage) := by
  have hmono : base.halted = true → i.halted = true := fun hh => by
    rcases hw.marks with h1 | h2
    · exact h1.1.trans hh
    · exact h2.2
  cases hst : l.stage with
  | guest =>
    rw [hst] at ht
    exact ht
  | fresh =>
    rw [hst] at ht
    refine ⟨ht.1, ?_⟩
    rw [hw.failed (by rw [hst]; nofun)]
    exact ht.2
  | resuming =>
    rw [hst] at ht
    exact ⟨ht.1, ht.2.1, hw.resumed hst⟩
  | after =>
    rw [hst] at ht
    refine ⟨ht.1, ht.2.1, ?_⟩
    rw [hw.paused (.inr hst)]
    exact ht.2.2.imp_left hmono

/-- A request is refused and nothing happens, or it goes through. -/
theorem answer_cases {went : Option Host} {a : Except IoError Unit} {h' : Host}
    (hex : h.answer c went = some (a, h')) :
    (∃ e, a = .error e ∧ h' = h) ∨ (c = .go ∧ went = some h' ∧ a = .ok ()) := by
  unfold Host.answer at hex
  split at hex
  · obtain ⟨h₁, hw, heq⟩ := Option.map_eq_some_iff.mp hex
    cases heq
    exact .inr ⟨rfl, hw, rfl⟩
  · cases hex
    exact .inl ⟨_, rfl, rfl⟩
  · cases hex

theorem setView_eq (hs : l.sec = some s) (r : Ring) (f : View → View) : l.setView r f = { l with
      sec := some ⟨s.base, update s.view r (f (s.view r))⟩ } := by
  simp [Loc.setView, hs]

theorem setIdeal_self (h : Host) (r : Ring) : h.setIdeal r (h.ideal r) = h := by
  simp [Host.setIdeal]

theorem setRing_self (h : Host) (r : Ring) : h.setRing r (h.rings r) = h := by
  simp [Host.setRing]

/-- The state read is the ring's, or the kernel holds no ring. -/
theorem getState_cases (hg : h.ringGetState r c = some st) :
    (∃ k, h.rings r = some k ∧ st = k.state) ∨ (h.rings r = none ∧ st.index = r) := by
  unfold Host.ringGetState at hg
  split at hg
  next k hk =>
    cases hg
    exact .inl ⟨k, hk, rfl⟩
  next hk =>
    split at hg
    next hidx =>
      cases hg
      exact .inr ⟨hk, hidx⟩
    · cases hg
  · cases hg

namespace Inv

variable (hi : Inv b m h gh)
include hi

theorem owner_eq (hs : (gh t).sec = some s) : h.owner = some t := (hi.2 t).owns.mp (by rw [hs]; rfl)

theorem sec_eq_none (hne : h.owner ≠ some t) : (gh t).sec = none :=
  Option.eq_none_iff_forall_ne_some.mpr fun _ hs => hne (hi.owner_eq hs)

/-- In a section, everybody else is outside. -/
theorem outside (hs : (gh t).sec = some s) {u : Nat} (hu : u ≠ t) :
    (gh u).sec = none ∧ h.owner ≠ some u := by
  have hne : h.owner ≠ some u := by
    rw [hi.owner_eq hs]
    intro heq
    exact hu (Option.some.inj heq).symm
  exact ⟨hi.sec_eq_none hne, hne⟩

theorem not_halted (hin : (gh t).inside s) : h.inner.halted = false := by
  rw [((hi.2 t).sec s hin.1).base]
  exact hin.2

variable {k : Option KRing} {o : Option VringState} {f : Ring → Bool}

/-- A section changes one ring, or learns something about it: nobody is to
see a ring it has freed. -/
theorem onSection (hin : (gh t).inside s) {r : Ring} {w : View} {clock : Nat}
    {programmedAt : Ring → Nat} (hw : w.Agrees k o)
    (hidx : ∀ kr, k = some kr → kr.state.index = r) (hclock : h.clock ≤ clock)
    (hmine : b = false → ∀ q, f q = true → update h.rings r k q ≠ none → h.since t ≤ programmedAt q)
    (hother : ∀ u, b = false → ∀ q, (gh u).freed q = true →
      update h.rings r k q ≠ none → h.since u ≤ programmedAt q) :
    Inv b m { (h.setRing r k).setIdeal r o with
        clock := clock, programmedAt := programmedAt }
      (update gh t { gh t with
        sec := some ⟨s.base, update s.view r w⟩, freed := f }) := by
  obtain ⟨hsh, hper⟩ := id hi
  have howner := hi.owner_eq hin.1
  have hlive := hi.not_halted hin
  have hsec := (hper t).sec s hin.1
  apply inv_update
  · refine { hsh with
      free := fun hn => ?_, rings := fun q kr hq => ?_, deleted := fun hd => ?_
      clock := fun u => (hsh.clock u).trans hclock }
    · rw [show h.owner = none from hn] at howner
      cases howner
    · change update h.rings r k q = some kr at hq
      by_cases hqr : q = r
      · subst hqr
        rw [update_self] at hq
        exact hidx kr hq
      · rw [update_of_ne hqr] at hq
        exact hsh.rings q kr hq
    · rw [(hsh.deleted hd).1] at hlive
      cases hlive
  · refine { hper t with
      owns := ⟨fun _ => howner, fun _ => rfl⟩, sec := fun s' hs' => ?_
      freed := hmine }
    obtain rfl := Option.some.inj hs'
    refine ⟨hsec.base, fun hh => ?_, fun q => ?_⟩
    · exact absurd (hin.2.symm.trans hh) nofun
    · by_cases hqr : q = r
      · subst hqr
        simpa [Host.setRing, Host.setIdeal] using hw
      · simpa [Host.setRing, Host.setIdeal, update_of_ne hqr] using hsec.agrees q
  · intro u hu
    exact (hper u).outside (hi.outside hin.1 hu).1 (hother u)

theorem onRing (hin : (gh t).inside s) (r : Ring) {w : View} (hw : w.Agrees k o)
    (hidx : ∀ kr, k = some kr → kr.state.index = r)
    (hnew : b = false → k ≠ none → h.rings r ≠ none)
    (hf : ∀ q, f q = true → (gh t).freed q = true ∨ q = r ∧ k = none) :
    Inv b m ((h.setRing r k).setIdeal r o) (update gh t
      { gh t with
        sec := some ⟨s.base, update s.view r w⟩, freed := f }) := by
  have hfreed (u : Nat) (hb : b = false) (q : Ring) (hq : (gh u).freed q = true)
      (hne : update h.rings r k q ≠ none) :
      h.since u ≤ h.programmedAt q := by
    refine (hi.2 u).freed hb q hq ?_
    by_cases hqr : q = r
    · subst hqr
      rw [update_self] at hne
      exact hnew hb hne
    · rwa [update_of_ne hqr] at hne
  refine hi.onSection hin hw hidx (Nat.le_refl _) (fun hb q hq hne => ?_) hfreed
  rcases hf q hq with hold | ⟨rfl, rfl⟩
  · exact hfreed t hb q hold hne
  · exact absurd (update_self ..) hne

theorem onInit (hin : (gh t).inside s) (r : Ring) (hidx : st.index = r) :
    Inv b m { (h.setRing r (some ⟨st, false⟩)).setIdeal r (some st) with
        clock := h.clock + 1
        programmedAt := update h.programmedAt r h.clock }
      (update gh t { gh t with
        sec := some ⟨s.base, update s.view r .live⟩ }) := by
  -- a call that began before now began before this programming
  have hfreed (u : Nat) (hb : b = false) (q : Ring) (hq : (gh u).freed q = true)
      (hne : update h.rings r (some ⟨st, false⟩) q ≠ none) :
      h.since u ≤ update h.programmedAt r h.clock q := by
    by_cases hqr : q = r
    · subst hqr
      rw [update_self]
      exact hi.1.clock u
    · rw [update_of_ne hqr] at hne ⊢
      exact (hi.2 u).freed hb q hq hne
  refine hi.onSection hin (by simp [View.Agrees]) (fun kr hk => ?_)
    (Nat.le_succ _) (hfreed t) hfreed
  rw [← Option.some.inj hk]
  exact hidx

/-- Rings go away under a device that is halted. Sections of such a device
know nothing about the rings. -/
theorem onHalt (hh : h.inner.halted = true) {rings : Ring → Option KRing}
    (hr : ∀ r, rings r = none ∨ rings r = h.rings r) {deleted : Bool}
    (hd : h.deleted = true → deleted = true)
    (hd' : deleted = true → h.polled = true ∧ ∀ r, rings r = none) :
    Inv b m { h with rings := rings, deleted := deleted } gh := by
  obtain ⟨hsh, hper⟩ := hi
  have hold (r : Ring) (kr : KRing) (hk : rings r = some kr) : h.rings r = some kr := by
    rcases hr r with hn | hs
    · rw [hn] at hk
      cases hk
    · rw [← hs]
      exact hk
  have hany (v : View) (r : Ring) (hv : v = .any) (ha : v.Agrees (h.rings r) (h.ideal r)) :
      v.Agrees (rings r) (h.ideal r) := by
    subst hv
    exact fun kr hk => ha kr (hold r kr hk)
  refine ⟨{ hsh with
    free := fun hn r => hany _ r (view_halted hh r) (hsh.free hn r)
    rings := fun r k hk => hsh.rings r k (hold r k hk)
    deleted := fun hdel => ⟨hh, hd' hdel⟩ }, fun u => ?_⟩
  have hp := hper u
  refine { hp with
    sec := fun s hs => ?_
    freed := fun hb r hf hne => hp.freed hb r hf fun hn => ?_
    dead := fun hdead => (hp.dead hdead).imp_right (Or.imp_left hd) }
  · have hsec := hp.sec s hs
    have hbase : s.base.halted = true := by
      rw [← hsec.base]
      exact hh
    exact { hsec with
      agrees := fun r => hany _ r (hsec.blind hbase r) (hsec.agrees r) }
  · cases hk : rings r with
    | none => exact hne hk
    | some kr =>
      rw [hold r kr hk] at hn
      cases hn

/-- The thread itself learns something, and nothing else happens. -/
theorem learn (hl : Per b m h t l) : Inv b m h (update gh t l) :=
  inv_update hi.1 hl fun u _ => hi.2 u

theorem same : Inv b m h (update gh t (gh t)) := by
  rw [update_eq_self]
  exact hi

theorem lock (howner : h.owner = none) : Inv b m (h.lock t)
      (update gh t (learns b (gh t) .lock h.inner)) := by
  obtain ⟨hsh, hper⟩ := id hi
  apply inv_update
  · exact { hsh with free := nofun }
  · have hp := hper t
    refine { hp with
      owns := ⟨fun _ => rfl, fun _ => rfl⟩, sec := fun s hs => ?_
      freed := fun hb r hf hne => ?_, dead := fun hd => ?_ }
    · obtain rfl := Option.some.inj hs
      exact ⟨rfl, fun hh r => view_halted hh r, hsh.free howner⟩
    · rcases Bool.or_eq_true_iff.mp hf with hold | hgone
      · exact hp.freed hb r hold hne
      · have hag := hsh.free howner r
        cases hv : h.inner.view b r with
        | gone =>
          rw [hv] at hag
          exact absurd hag.1 hne
        | _ =>
          rw [hv] at hgone
          cases hgone
    · show update h.early t _ t = true ∨ _
      rw [update_self]
      cases hdel : h.deleted with
      | true => exact .inr (.inl hdel)
      | false =>
        rcases Bool.or_eq_true_iff.mp hd with hold | hh
        · rcases hp.dead hold with h1 | h2 | h3
          · exact .inl (by simp [h1])
          · rw [hdel] at h2
            cases h2
          · exact .inr (.inr h3)
        · exact .inl (by simp [hh])
  · intro u hu
    have hp := hper u
    have hout : (gh u).sec = none := hi.sec_eq_none (by simp [howner])
    refine { hp with
      owns := ?_, sec := fun s hs => ?_, dead := fun hd => ?_ }
    · rw [hout]
      refine ⟨by simp, fun h => ?_⟩
      exact absurd (Option.some.inj h).symm hu
    · rw [hout] at hs
      cases hs
    · show update h.early t _ u = true ∨ _
      rw [update_of_ne hu]
      exact hp.dead hd

theorem unlock {i : Inner} (hs : (gh t).sec = some s)
    (hw : Writes (gh t) s.base i) (hfits : Fits b s.view i) :
    Inv b m (h.unlock t i) (update gh t (learns b (gh t) (.unlock i) ())) := by
  obtain ⟨hsh, hper⟩ := id hi
  have hsec := (hper t).sec s hs
  have hbase := hsec.base
  have hst := (hper t).stage
  rw [hbase] at hst
  have hmono : h.inner.halted = true → i.halted = true := fun hh => by
    rw [hbase] at hh
    rcases hw.marks with h1 | h2
    · exact h1.1.trans hh
    · exact h2.2
  -- a halt that has begun elsewhere has its mark already
  have hhalter (u : Nat) (hh : h.inner.halted = true) (hu : h.halter = some u) :
      (if i.halted && !h.inner.halted then some t else h.halter) =
        some u := by
    simp [hh, hu]
  apply inv_update
  · refine { hsh with
      free := fun _ r => hfits r _ _ (hsec.agrees r), init := hw.init
      indexed := hw.index, failed := fun hb => ?_
      poller := fun hh hp => ?_, deleted := fun hd => ?_ }
    · have hne : (gh t).stage ≠ .resuming := fun heq => by
        rw [heq, hb] at hst
        cases hst.1
      rw [show (h.unlock t i).inner.failed = i.failed from rfl, hw.failed hne, ← hbase]
      exact hsh.failed hb
    · have hh : i.halted = false := hh
      rcases hw.marks with ⟨h1, h2⟩ | ⟨-, h2⟩
      · refine hsh.poller ?_ ?_
        · rw [hbase, ← h1]
          exact hh
        · rw [hbase, ← h2]
          exact hp
      · rw [hh] at h2
        cases h2
    · obtain ⟨hh, hrest⟩ := hsh.deleted hd
      exact ⟨hmono hh, hrest⟩
  · have hp := hper t
    refine { hp with
      owns := ⟨fun h => (by cases h), fun h => (by cases h)⟩
      sec := fun _ h => (by cases h), stage := hst.writer hw
      halt := fun hne => ?_, clear := fun hc => ?_ }
    · by_cases hmark : (i.halted && !s.base.halted) = true
      · refine ⟨(Bool.and_eq_true_iff.mp hmark).1, ?_⟩
        show (if i.halted && !h.inner.halted then _ else _) = some t
        rw [hbase, if_pos hmark]
      · have hne : (gh t).halting ≠ .no := by
          simpa [learns, hs, hmark] using hne
        obtain ⟨hh, hhal⟩ := hp.halt hne
        exact ⟨hmono hh, hhalter t hh hhal⟩
    · by_cases hmark : (i.halted && !s.base.halted) = true
      · have hnp : s.base.poller = false := by
          by_contra hpol
          simp [learns, hs, hmark, hpol] at hc
        refine hsh.poller ?_ (by rw [hbase]; exact hnp)
        rw [hbase]
        simpa using (Bool.and_eq_true_iff.mp hmark).2
      · have hc : (gh t).halting = .clear := by
          simpa [learns, hs, hmark] using hc
        exact hp.clear hc
  · intro u hu
    have hp := hper u
    have hout := (hi.outside hs hu).1
    have hstu := hp.stage
    rw [hbase] at hstu
    refine { hp with
      owns := ?_, sec := fun s' hs' => ?_, stage := hst.write hw hu hstu
      halt := fun hne => ?_ }
    · rw [hout]
      exact ⟨fun h => (by cases h), fun h => (by cases h)⟩
    · rw [hout] at hs'
      cases hs'
    · obtain ⟨hh, hhal⟩ := hp.halt hne
      exact ⟨hmono hh, hhalter u hh hhal⟩

theorem begins : Inv b m { h with
        since := update h.since t h.clock
        early := update h.early t false }
      (update gh t
        { gh t with freed := fun _ => false, dead := false }) := by
  obtain ⟨hsh, hper⟩ := hi
  apply inv_update
  · refine { hsh with clock := fun u => ?_ }
    show update h.since t h.clock u ≤ h.clock
    by_cases hu : u = t
    · rw [hu, update_self]
    · rw [update_of_ne hu]
      exact hsh.clock u
  · exact { hper t with
      freed := fun _ _ hf => (nomatch hf), dead := nofun }
  · intro u hu
    have hp := hper u
    refine { hp with freed := fun hb r hf hne => ?_, dead := fun hd => ?_ }
    · show update h.since t h.clock u ≤ _
      rw [update_of_ne hu]
      exact hp.freed hb r hf hne
    · show update h.early t false u = true ∨ _
      rw [update_of_ne hu]
      exact hp.dead hd

theorem pollExit (hpoll : (gh t).polling = true) : Inv b m { h with polled := true }
      (update gh t { gh t with polling := false }) := by
  obtain ⟨hsh, hper⟩ := hi
  apply inv_update
  · exact { hsh with
      poller := fun _ _ => rfl, joined := fun _ => rfl
      deleted := fun hd =>
        ⟨(hsh.deleted hd).1, rfl, (hsh.deleted hd).2.2⟩ }
  · exact { hper t with clear := fun _ => rfl, poll := nofun }
  · intro u hu
    refine { hper u with clear := fun _ => rfl, poll := fun hpu => ?_ }
    -- there is only one poll thread
    exact absurd (((hper u).poll hpu).1.trans ((hper t).poll hpoll).1.symm) hu

/-- The pipe, the join and an abort are seen by nobody else. -/
theorem notes {wake joined aborted : Bool} (hj : joined = true → h.polled = true)
    (ha : h.aborted = true → aborted = true) :
    Inv b m { h with
      wakeClosed := wake, joined := joined, aborted := aborted } gh := by
  obtain ⟨hsh, hper⟩ := hi
  refine ⟨{ hsh with joined := hj }, fun u => ?_⟩
  exact { hper u with
    dead := fun hd => ((hper u).dead hd).imp_right (Or.imp_right ha) }

theorem move {e : Move} {h' : Host} (hm : h.move e = some h') : Inv b m h' gh := by
  obtain ⟨hsh, hper⟩ := hi
  unfold Host.move at hm
  split at hm
  next st hring =>
    obtain rfl := Option.some.inj hm
    have hagrees (v : View) (r : Ring) (hv : v.Agrees (h.rings r) (h.ideal r)) : v.Agrees
          (update h.rings e.ring (some ⟨e.on st, false⟩) r)
          (update h.ideal e.ring ((h.ideal e.ring).map e.on) r) := by
      by_cases hr : r = e.ring
      · subst hr
        rw [update_self, update_self]
        rw [hring] at hv
        exact View.agrees_move e.on hv
      · rw [update_of_ne hr, update_of_ne hr]
        exact hv
    have hne (r : Ring) (hr : update h.rings e.ring
        (some ⟨e.on st, false⟩) r ≠ none) : h.rings r ≠ none := by
      by_cases hre : r = e.ring
      · rw [hre, hring]
        nofun
      · rw [update_of_ne hre] at hr
        exact hr
    refine ⟨{ hsh with
      free := fun hn r => hagrees _ r (hsh.free hn r)
      rings := fun r k hk => ?_, deleted := fun hd => ?_ }, fun u => ?_⟩
    · change update h.rings e.ring (some ⟨e.on st, false⟩) r = some k at hk
      by_cases hr : r = e.ring
      · subst hr
        rw [update_self] at hk
        rw [← Option.some.inj hk]
        have hidx := hsh.rings _ _ hring
        cases e <;> exact hidx
      · rw [update_of_ne hr] at hk
        exact hsh.rings r k hk
    · rw [(hsh.deleted hd).2.2 e.ring] at hring
      cases hring
    · have hp := hper u
      exact { hp with
        sec := fun s hs => { hp.sec s hs with
          agrees := fun r => hagrees _ r ((hp.sec s hs).agrees r) }
        freed := fun hb r hf hr => hp.freed hb r hf (hne r hr) }
  · cases hm

-- ==== one step

theorem retire (hal : mayIssue b (gh t) (.retire r)) : Inv b m (h.setIdeal r none)
      (update gh t (learns b (gh t) (.retire r) ())) := by
  obtain ⟨s, hin, hempty⟩ := hal
  have hsec := (hi.2 t).sec s hin.1
  rw [show learns b (gh t) (.retire r) () = _ from setView_eq hin.1 r fun _ => .gone]
  have hstep := hi.onRing hin r (k := h.rings r) (o := none)
    (f := (gh t).freed) (View.agrees_retire (hsec.agrees r) hempty)
    (hi.1.rings r) (fun _ h => h) fun _ h => .inl h
  rw [setRing_self] at hstep
  exact hstep

theorem ringReset (hal : mayIssue b (gh t) (.ringReset r)) : Inv b m (h.setRing r none)
      (update gh t (learns b (gh t) (.ringReset r) (.ok ()))) := by
  have hfree (q : Ring) (hq : update (gh t).freed r true q = true) :
      (gh t).freed q = true ∨ q = r ∧ (none : Option KRing) = none := by
    by_cases hqr : q = r
    · exact .inr ⟨hqr, rfl⟩
    · rw [update_of_ne hqr] at hq
      exact .inl hq
  rcases hal with ⟨s, hin⟩ | ⟨hclear, hnone⟩
  · have hsec := (hi.2 t).sec s hin.1
    have hl : learns b (gh t) (.ringReset r) (.ok ()) =
        { gh t with
          sec := some ⟨s.base, update s.view r (s.view r).reset⟩
          freed := update (gh t).freed r true } := by
      show ((gh t).setView r View.reset).free r = _
      rw [setView_eq hin.1]
      rfl
    rw [hl]
    have hstep := hi.onRing hin r (k := none) (o := h.ideal r)
      (View.agrees_reset (hsec.agrees r)) nofun (fun _ hk => absurd rfl hk)
      hfree
    rw [show (h.setRing r none).setIdeal r (h.ideal r) = h.setRing r none
      from setIdeal_self (h.setRing r none) r] at hstep
    exact hstep
  · have hhalt := ((hi.2 t).halt (by rw [hclear]; nofun)).1
    have hi' : Inv b m (h.setRing r none) gh := by
      refine hi.onHalt hhalt (fun q => ?_) (fun hd => hd) fun hd => ?_
      · by_cases hqr : q = r
        · exact .inl (by rw [hqr, update_self])
        · exact .inr (update_of_ne hqr ..)
      · refine ⟨(hi.1.deleted hd).2.1, fun q => ?_⟩
        by_cases hqr : q = r
        · rw [hqr, update_self]
        · rw [update_of_ne hqr]
          exact (hi.1.deleted hd).2.2 q
    have hp := hi'.2 t
    apply hi'.learn
    refine { hp with
      owns := ?_, sec := fun s hs => ?_, freed := fun hb q hq hne => ?_ }
    · simpa [learns, Loc.setView, Loc.free, hnone] using hp.owns
    · simp [learns, Loc.setView, Loc.free, hnone] at hs
    · rcases hfree q hq with hold | ⟨hqr, -⟩
      · exact hp.freed hb q hold hne
      · refine absurd ?_ hne
        rw [hqr]
        exact update_self ..

theorem ringPause (hal : mayIssue b (gh t) (.ringPause r)) : Inv b m (h.ringPause r)
      (update gh t (learns b (gh t) (.ringPause r) (.ok ()))) := by
  obtain ⟨s, hin⟩ := hal
  have hsec := (hi.2 t).sec s hin.1
  rw [show learns b (gh t) (.ringPause r) (.ok ()) = _ from setView_eq hin.1 r _]
  have hstep := hi.onRing hin r (o := h.ideal r) (f := (gh t).freed)
    (View.agrees_pause (hsec.agrees r)) (fun kr hk => ?_) (fun _ hk => ?_)
    fun _ h => .inl h
  · rw [show (h.setRing r _).setIdeal r (h.ideal r) = h.ringPause r
      from setIdeal_self (h.ringPause r) r] at hstep
    exact hstep
  · obtain ⟨kr', hk', rfl⟩ := Option.map_eq_some_iff.mp hk
    exact hi.1.rings r kr' hk'
  · intro hn
    rw [hn] at hk
    exact hk rfl

theorem ringGetState (hal : mayIssue b (gh t) (.ringGetState r))
    (hg : h.ringGetState r c = some st) :
    st.index = r ∧ Inv b m h (update gh t (learns b (gh t) (.ringGetState r) (.ok st))) := by
  obtain ⟨s, hin⟩ := hal
  have hsec := (hi.2 t).sec s hin.1
  refine ⟨?_, ?_⟩
  · rcases getState_cases hg with ⟨k, hk, rfl⟩ | ⟨-, hidx⟩
    · exact hi.1.rings r k hk
    · exact hidx
  · rw [show learns b (gh t) (.ringGetState r) (.ok st) = _ from setView_eq hin.1 r _]
    have hstep := hi.onRing hin r (k := h.rings r) (o := h.ideal r)
      (f := (gh t).freed) (View.agrees_learn st (hsec.agrees r) ?_)
      (hi.1.rings r) (fun _ h => h) fun _ h => .inl h
    · rw [setRing_self, setIdeal_self] at hstep
      exact hstep
    · intro kr hkr
      rcases getState_cases hg with ⟨k, hk, hst⟩ | ⟨hn, -⟩
      · rw [hk] at hkr
        rw [hst, Option.some.inj hkr]
      · rw [hn] at hkr
        cases hkr

theorem ringSetState (hal : mayIssue b (gh t) (.ringSetState st))
    (hw : h.ringSetState st = some h') :
    Inv b m h' (update gh t (learns b (gh t) (.ringSetState st) (.ok ()))) := by
  obtain ⟨s, hin, hb, hbare⟩ := hal
  have hsec := (hi.2 t).sec s hin.1
  rw [show learns b (gh t) (.ringSetState st) (.ok ()) = _
    from setView_eq hin.1 st.index fun _ => .live]
  unfold Host.ringSetState at hw
  split at hw
  · cases hw
  · obtain rfl := Option.some.inj hw
    have hag := hsec.agrees st.index
    rw [hbare] at hag
    have hstep := hi.onRing hin st.index (k := some ⟨st, false⟩)
      (o := h.ideal st.index) (w := .live) (f := (gh t).freed)
      ⟨st, rfl, hag.2 st rfl⟩ (fun kr hk => ?_) (fun hf => ?_)
      fun _ h => .inl h
    · rw [show (h.setRing st.index (some ⟨st, false⟩)).setIdeal st.index
        (h.ideal st.index) = h.setRing st.index (some ⟨st, false⟩)
        from setIdeal_self (h.setRing st.index _) st.index] at hstep
      exact hstep
    · rw [← Option.some.inj hk]
    · rw [hb] at hf
      cases hf

theorem ringInit {size : BitVec 16} {desc avail used : BitVec 64}
    (hal : mayIssue b (gh t) (.ringInit r size desc avail used))
    (hw : h.ringInit r size desc avail used = some h') :
    Inv b m h' (update gh t (learns b (gh t) (.ringInit r size desc avail used) (.ok ()))) := by
  obtain ⟨s, hin, -⟩ := hal
  rw [show learns b (gh t) (.ringInit r size desc avail used) (.ok ()) = _
    from setView_eq hin.1 r fun _ => .live]
  unfold Host.ringInit at hw
  split at hw
  · cases hw
  · obtain rfl := Option.some.inj hw
    exact hi.onInit hin r rfl

theorem delete (hal : mayIssue b (gh t) .delete) : Inv b m h.delete
      (update gh t (learns b (gh t) .delete (.ok ()))) := by
  obtain ⟨hclear, -⟩ := hal
  have hhalt := ((hi.2 t).halt (by rw [hclear]; nofun)).1
  have hi' : Inv b m h.delete gh :=
    hi.onHalt hhalt (fun _ => .inl rfl) (fun _ => rfl)
      fun _ => ⟨(hi.2 t).clear hclear, fun _ => rfl⟩
  exact hi'.learn { hi'.2 t with
    halt := fun hne => absurd rfl hne, clear := nofun
    dead := fun _ => .inr (.inl rfl) }

theorem deleteRefused (e : IoError) :
    Inv b m h (update gh t (learns b (gh t) .delete (.error e))) :=
  hi.learn { hi.2 t with halt := fun hne => absurd rfl hne, clear := nofun }

theorem failing (hal : mayIssue b (gh t) .failing) :
    Inv b m h (update gh t (learns b (gh t) .failing ())) := by
  obtain ⟨-, hb, hfresh⟩ := hal
  have hst := (hi.2 t).stage
  rw [hfresh] at hst
  exact hi.learn { hi.2 t with stage := ⟨hb, hst.1 hb, hst.2⟩ }

theorem join (hal : mayIssue b (gh t) .join) (hpolled : h.polled = true) :
    Inv b m { h with joined := true } (update gh t (learns b (gh t) .join ())) := by
  have hi' : Inv b m { h with joined := true } gh :=
    hi.notes (fun _ => hpolled) fun h => h
  have hmarked : (gh t).halting = .marked := hal
  have hp := hi'.2 t
  exact hi'.learn { hp with
    halt := fun _ => hp.halt (by rw [hmarked]; nofun)
    clear := fun _ => hpolled }

theorem abort : Inv b m { h with aborted := true } (update gh t (learns b (gh t) .abort ())) := by
  have hi' : Inv b m { h with aborted := true } gh :=
    hi.notes hi.1.joined fun _ => rfl
  exact hi'.learn { hi'.2 t with dead := fun _ => .inr (.inr rfl) }

/-- What the lock hands out. -/
theorem can_lock : canAnswer b (gh t) .lock h.inner := by
  refine ⟨hi.1.init, fun hst => ?_, hi.1.failed, hi.1.indexed⟩
  have hok := (hi.2 t).stage
  rcases hst with hst | hst
  · rw [hst] at hok
    exact hok.2
  · rw [hst] at hok
    exact hok.2.2

/-- No step that the rules allow breaks the invariant, as long as no ring is
programmed that a rollback has a state saved for. -/
theorem step {o : Op} {a : Ans o}
    (hunsaved : ∀ r size desc avail used, o = .ringInit r size desc avail used →
      c = .go → b = true → ∀ st, h.inner.pausedRings r ≠ .saved st)
    (hal : mayIssue b (gh t) o) (hex : h.exec t c o = some (a, h')) :
    canAnswer b (gh t) o a ∧ Inv b m h' (update gh t (learns b (gh t) o a)) := by
  cases o with
  | begins call =>
    cases hex
    exact ⟨trivial, hi.begins⟩
  | returns call =>
    cases hex
    exact ⟨trivial, hi.same⟩
  | retire r =>
    cases hex
    exact ⟨trivial, hi.retire hal⟩
  | failing =>
    cases hex
    exact ⟨trivial, hi.failing hal⟩
  | lock =>
    simp only [Host.exec] at hex
    split at hex
    next howner =>
      cases hex
      exact ⟨hi.can_lock, hi.lock howner⟩
    · cases hex
  | unlock i =>
    simp only [Host.exec] at hex
    split at hex
    · cases hex
      obtain ⟨s, hs, hw, hfits⟩ := hal
      exact ⟨trivial, hi.unlock hs hw hfits⟩
    · cases hex
  | ringInit r size desc avail used =>
    rcases answer_cases hex with ⟨e, rfl, rfl⟩ | ⟨hgo, hw, rfl⟩
    · exact ⟨trivial, hi.same⟩
    · refine ⟨fun s hin hb st => ?_, hi.ringInit hal hw⟩
      rw [← ((hi.2 t).sec s hin.1).base]
      exact hunsaved r size desc avail used rfl hgo hb st
  | ringKick r =>
    rcases answer_cases hex with ⟨e, rfl, rfl⟩ | ⟨-, hw, rfl⟩
    · exact ⟨trivial, hi.same⟩
    · unfold Host.ringKick at hw
      split at hw
      · cases hw
        exact ⟨trivial, hi.same⟩
      · cases hw
  | ringReset r =>
    rcases answer_cases hex with ⟨e, rfl, rfl⟩ | ⟨-, hw, rfl⟩
    · exact ⟨trivial, hi.same⟩
    · cases hw
      exact ⟨trivial, hi.ringReset hal⟩
  | ringPause r =>
    rcases answer_cases hex with ⟨e, rfl, rfl⟩ | ⟨-, hw, rfl⟩
    · exact ⟨trivial, hi.same⟩
    · cases hw
      exact ⟨trivial, hi.ringPause hal⟩
  | ringGetState r =>
    simp only [Host.exec] at hex
    split at hex
    · cases hex
      exact ⟨trivial, hi.same⟩
    · obtain ⟨st, hg, heq⟩ := Option.map_eq_some_iff.mp hex
      cases heq
      exact hi.ringGetState hal hg
  | ringSetState st =>
    rcases answer_cases hex with ⟨e, rfl, rfl⟩ | ⟨-, hw, rfl⟩
    · exact ⟨trivial, hi.same⟩
    · exact ⟨trivial, hi.ringSetState hal hw⟩
  | setFeatures f =>
    rcases answer_cases hex with ⟨e, rfl, rfl⟩ | ⟨-, hw, rfl⟩
    · exact ⟨trivial, hi.same⟩
    · cases hw
      exact ⟨trivial, hi.same⟩
  | delete =>
    rcases answer_cases hex with ⟨e, rfl, rfl⟩ | ⟨-, hw, rfl⟩
    · exact ⟨trivial, hi.deleteRefused e⟩
    · cases hw
      exact ⟨trivial, hi.delete hal⟩
  | intrStatus =>
    simp only [Host.exec] at hex
    split at hex
    · cases hex
      exact ⟨trivial, hi.same⟩
    · cases hex
      exact ⟨trivial, hi.same⟩
    · cases hex
  | ringIntrClr r =>
    rcases answer_cases hex with ⟨e, rfl, rfl⟩ | ⟨-, hw, rfl⟩
    · exact ⟨trivial, hi.same⟩
    · cases hw
      exact ⟨trivial, hi.same⟩
  | waitIntr =>
    simp only [Host.exec] at hex
    split at hex
    · cases hex
      exact ⟨trivial, hi.same⟩
    · split at hex
      · cases hex
        exact ⟨trivial, hi.same⟩
      · cases hex
    · cases hex
      exact ⟨trivial, hi.same⟩
    · cases hex
  | slot =>
    simp only [Host.exec] at hex
    split at hex
    · cases hex
      exact ⟨trivial, hi.same⟩
    · cases hex
  | raise r =>
    cases hex
    exact ⟨trivial, hi.same⟩
  | closeWake =>
    cases hex
    exact ⟨trivial, (hi.notes hi.1.joined fun h => h).same⟩
  | join =>
    simp only [Host.exec] at hex
    split at hex
    next hpolled =>
      cases hex
      exact ⟨trivial, hi.join hal hpolled⟩
    · cases hex
  | pollExit =>
    cases hex
    exact ⟨trivial, hi.pollExit hal⟩
  | abort =>
    cases hex
    exact ⟨trivial, hi.abort⟩

end Inv

end Rshyve.Virtio.Viona
