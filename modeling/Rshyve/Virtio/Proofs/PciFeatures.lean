/-
# Feature negotiation over both faces

The two faces of a transitional device freeze the features at different
points: the legacy one at DRIVER_OK, the modern one at FEATURES_OK. Neither
looks at the other's. `legacy_rewrites_negotiated` runs a driver that does:
it negotiates EVENT_IDX and FEATURES_OK through BAR2, enables a queue, and
then writes GUEST_FEATURES through BAR0, which replaces the feature word and
turns EVENT_IDX off under the live ring.

What holds is that each face keeps its own promise. `FeatureStep` says what
an input can do to the feature word and to the ring features; under
`negotiatesOnce`, the condition that neither face negotiates after the other
has finished or under a live ring, the word is frozen from FEATURES_OK or
DRIVER_OK to the reset and the ring features of a configured queue never
change (`features_stable`).
-/
import Rshyve.Virtio.Proofs.PciSteps

namespace Rshyve.Virtio.Pci

variable {n : Nat}

-- ==== status bits

/-- A bit survives a write that clears none. -/
theorem has_of_and_eq {w : Nat} {new old mask : BitVec w}
    (h : new &&& old = old) (hold : has old mask = true) :
    has new mask = true := by
  unfold has at *
  rw [bne_iff_ne] at *
  intro hz
  apply hold
  rw [← h, BitVec.and_comm new old, BitVec.and_assoc, hz]
  exact BitVec.and_zero

theorem has_or_left {w : Nat} {old mask : BitVec w} (x : BitVec w)
    (hold : has old mask = true) : has (old ||| x) mask = true := by
  apply has_of_and_eq _ hold
  apply BitVec.eq_of_getLsbD_eq
  intro i hi
  simp only [BitVec.getLsbD_and, BitVec.getLsbD_or]
  cases old.getLsbD i <;> simp

theorem has_twoPow {w k : Nat} (hk : k < w) (x : BitVec w) :
    has x (BitVec.twoPow w k) = x.getLsbD k := by
  unfold has
  rw [BitVec.and_twoPow]
  cases x.getLsbD k with
  | false => simp
  | true =>
    rw [if_pos rfl, bne_iff_ne]
    intro hz
    have := congrArg (·.getLsbD k) hz
    simp [hk] at this

theorem has_featuresOk (s : BitVec 8) : has s statusFeaturesOk = s.getLsbD 3 := by
  have h := has_twoPow (show 3 < 8 by decide) s
  exact h

-- ==== what is observed

/-- The ring features of a queue: EVENT_IDX and INDIRECT_DESC. -/
def VirtQueue.ringFeatures (q : VirtQueue) : Bool × Bool :=
  (q.eventIdx, q.indirectSupported)

theorem Readdressed.ringFeatures {q q' : VirtQueue} (h : Readdressed q q') :
    q'.ringFeatures = q.ringFeatures := by
  unfold VirtQueue.ringFeatures
  rw [h.eventIdx, h.indirectSupported]

/-- The ring features a feature word asks for. -/
def ringFeaturesOf (features : BitVec 64) : Bool × Bool :=
  (has features fRingEventIdx, has features fRingIndirectDesc)

variable {dev : BitVec 64} {ok : Prop}

namespace Transport

def ringFeatures (t : Transport n) (idx : Fin n) : Bool × Bool :=
  (t.vs.queues idx).ringFeatures

def configured (t : Transport n) (idx : Fin n) : Bool :=
  (t.vs.queues idx).isConfigured

def featuresOk (t : Transport n) : Bool := has t.vs.status statusFeaturesOk

def driverOk (t : Transport n) : Bool := has t.vs.status statusDriverOk

/-- Negotiation has ended: the driver set FEATURES_OK or DRIVER_OK, and no
reset has been published since. A reset that drains has taken DRIVER_OK
away already. -/
def Frozen (t : Transport n) : Prop :=
  t.featuresOk = true ∨ t.driverOk = true ∨ t.vs.resetting = true

/-- Neither the feature word nor any ring feature moved. -/
structure Same (t t' : Transport n) : Prop where
  word : t'.vs.guestFeatures = t.vs.guestFeatures
  rings : ∀ idx, t'.ringFeatures idx = t.ringFeatures idx
  frozen : t.Frozen → t'.Frozen

theorem Same.refl (t : Transport n) : Same t t := ⟨rfl, fun _ => rfl, id⟩

variable {t u : Transport n}

theorem Same.trans {v : Transport n} (h : Same t u) (h' : Same u v) : Same t v where
  word := h'.word.trans h.word
  rings idx := (h'.rings idx).trans (h.rings idx)
  frozen hf := h'.frozen (h.frozen hf)

variable {t' : Transport n}

/-- A step that keeps the status byte, the latch and the word. -/
theorem Same.of_eq (hs : t'.vs.status = t.vs.status) (hr : t'.vs.resetting = t.vs.resetting)
    (hw : t'.vs.guestFeatures = t.vs.guestFeatures)
    (hq : ∀ idx, t'.ringFeatures idx = t.ringFeatures idx) : Same t t' where
  word := hw
  rings := hq
  frozen h := by
    unfold Frozen featuresOk driverOk at *
    rw [hs, hr]
    exact h

theorem same_setNeedsReset (t : Transport n) : Same t t.setNeedsReset := by
  unfold setNeedsReset
  split
  · exact .refl t
  · refine ⟨rfl, fun _ => rfl, ?_⟩
    rintro (h | h | h)
    · exact .inl (has_or_left _ h)
    · exact .inr (.inl (has_or_left _ h))
    · exact .inr (.inr h)

theorem Same.setNeedsReset (h : Same t u) : Same t u.setNeedsReset :=
  h.trans (same_setNeedsReset u)

theorem Same.note (h : Same t u) (e : Event n) : Same t (u.note e) :=
  h.trans (.of_eq rfl rfl rfl fun _ => rfl)

theorem Same.setEnabled (h : Same t u) (idx : Fin n) (b : Bool) : Same t (u.setEnabled idx b) :=
  h.trans (.of_eq rfl rfl rfl fun _ => rfl)

variable {idx : Fin n} {q : VirtQueue}

theorem Same.setQueue (h : Same t u) (hq : q.ringFeatures = u.ringFeatures idx) :
    Same t (u.setQueue idx q) := by
  refine h.trans (Same.of_eq rfl rfl rfl fun j => ?_)
  show (Function.update u.vs.queues idx q j).ringFeatures = _
  by_cases hj : j = idx
  · subst hj
    rw [Function.update_self]
    exact hq
  · rw [Function.update_of_ne hj]
    rfl

-- ==== what an input can do

/-- No queue runs with a ring feature. -/
def ringsPlain (t : Transport n) : Bool :=
  decide (∀ idx, t.configured idx = true → t.ringFeatures idx = (false, false))

/-- No queue has rings. -/
def noRings (t : Transport n) : Bool :=
  decide (∀ idx, t.configured idx = false)

/-- A status write that ends negotiation does so before any ring exists. -/
def endsBeforeRings (t : Transport n) (new : BitVec 8) : Bool :=
  t.featuresOk || !has new statusFeaturesOk || t.noRings

/-- Neither face negotiates after the other has finished, or under a ring:
a GUEST_FEATURES write that the device takes finds FEATURES_OK clear and no
ring feature in use, a DRIVER_FEATURE write that it takes finds DRIVER_OK
clear, and FEATURES_OK is set while no queue has rings. -/
def negotiatesOnce (t : Transport n) : Input n → Bool
  | .legacy offset val _ =>
    t.vs.resetting || match LegacyReg.decode t.msixEnabled offset with
      | .guestFeatures => t.driverOk || (!t.featuresOk && t.ringsPlain)
      | .deviceStatus => t.endsBeforeRings (val.setWidth 8)
      | _ => true
  | .modern offset val _ =>
    t.vs.resetting || match ModernReg.decode offset with
      | .common .driverFeature =>
        t.featuresOk || !t.driverOk
          || (Half.ofSelect t.vs.driverFeatureSelect).isNone
      | .common .deviceStatus => t.endsBeforeRings (val.setWidth 8)
      | _ => true
  | _ => true

/-- What one input, the end of a reset apart, does to the features: nothing,
one of the two faces' feature registers, or the FEATURES_OK transition. `ok`
stands for the condition the input passes. -/
inductive FeatureStep (ok : Prop) (t t' : Transport n) : Prop where
  | same (h : Same t t')
  | guestFeatures (features : BitVec 64)
      (hvs : t'.vs = { t.vs with guestFeatures := features }.applyFeatures)
      (hplain : ringFeaturesOf features = (false, false))
      (hreset : t.vs.resetting = false) (hdrv : t.driverOk = false)
      (hok : ok → t.featuresOk = false ∧ t.ringsPlain = true)
  | driverFeature (features : BitVec 64) (hvs : t'.vs = { t.vs with guestFeatures := features })
      (hreset : t.vs.resetting = false) (hfeat : t.featuresOk = false)
      (hok : ok → t.driverOk = false)
  | negotiated (status : BitVec 8) (hvs : t'.vs = { t.vs with status := status }.applyFeatures)
      (hkeep : status &&& t.vs.status = t.vs.status)
      (hok : ok → t.noRings = true)

/-- The legacy face never offers a ring feature. -/
theorem ringFeaturesOf_legacy (deviceFeatures : BitVec 64) (val : BitVec 32) :
    ringFeaturesOf ((val &&& legacyFeatures deviceFeatures).setWidth 64) = (false, false) := by
  have h₁ : (~~~(fRingEventIdx.setWidth 32)).getLsbD 29 = false := by decide
  have h₂ : (~~~(fRingIndirectDesc.setWidth 32)).getLsbD 28 = false := by
    decide
  unfold ringFeaturesOf
  rw [show fRingEventIdx = BitVec.twoPow 64 29 from rfl,
    show fRingIndirectDesc = BitVec.twoPow 64 28 from rfl,
    has_twoPow (by decide), has_twoPow (by decide)]
  unfold legacyFeatures
  simp only [BitVec.getLsbD_setWidth, BitVec.getLsbD_and, h₁, h₂, Bool.and_false, Bool.false_and]

/-- A status byte that clears no bit keeps what is frozen frozen. -/
theorem Frozen.status {new : BitVec 8} (hf : t.Frozen) (hkeep : new &&& t.vs.status = t.vs.status) :
    has new statusFeaturesOk = true ∨ has new statusDriverOk = true ∨ t.vs.resetting = true := by
  rcases hf with hf | hf | hf
  · exact .inl (has_of_and_eq hkeep hf)
  · exact .inr (.inl (has_of_and_eq hkeep hf))
  · exact .inr (.inr hf)

/-- Under the condition, FEATURES_OK is set while no queue has rings. -/
theorem noRings_of_gain {i : Input n} {val : BitVec 32} (hok : t.negotiatesOnce i = true)
    (hgain : has (val.setWidth 8 &&& ~~~t.vs.status) statusFeaturesOk = true)
    (hi : t.Wrote i (.inl .deviceStatus) val ∨
      t.Wrote i (.inr .deviceStatus) val) : t.noRings = true := by
  have hend : t.endsBeforeRings (val.setWidth 8) = true := by
    cases i with
    | legacy offset v drain =>
      obtain ⟨hreset, hreg, rfl⟩ := hi.resolve_right fun h => h.2
      simpa only [negotiatesOnce, hreset, hreg, Bool.false_or] using hok
    | modern offset v drain =>
      obtain ⟨hreset, hreg, rfl⟩ := hi.resolve_left fun h => h.2
      simpa only [negotiatesOnce, hreset, hreg, Bool.false_or] using hok
    | _ => exact absurd hi (by simp [Wrote])
  have hgained : (val.setWidth 8).getLsbD 3 = true ∧ t.vs.status.getLsbD 3 = false := by
    rw [has_featuresOk, BitVec.getLsbD_and, BitVec.getLsbD_not] at hgain
    simpa using hgain
  unfold endsBeforeRings featuresOk at hend
  rw [has_featuresOk, has_featuresOk, hgained.1, hgained.2] at hend
  simpa using hend

theorem same_kicked (t : Transport n) (idx : Fin n)
    (drain : Fin n → VirtQueue.Drain) : Same t (t.kicked idx drain) := by
  refine Same.of_eq rfl rfl rfl fun idx => ?_
  show ((t.vs.queues idx).drained t.mem (drain idx)).ringFeatures = _
  obtain ⟨_, _, _, hd⟩ := (t.vs.queues idx).drained_eq t.mem (drain idx)
  rw [hd]
  rfl

theorem same_refused (a : Attempt n) (hq : q.ringFeatures = t.ringFeatures idx) :
    Same t ((t.note (.programmed a)).setQueue idx q.reset) :=
  ((Same.refl t).note _).setQueue hq

theorem featureStep_step {i : Input n} (hi : i ≠ .finishReset) (h : t.step dev i = some t') :
    FeatureStep (t.negotiatesOnce i = true) t t' := by
  cases change_step h with
  | plain hp =>
    refine .same (.of_eq hp.status hp.latch hp.word fun idx => ?_)
    unfold ringFeatures
    rw [hp.queues]
  | needsReset => exact .same (same_setNeedsReset t)
  | closed => exact .same ⟨rfl, fun _ => rfl, fun _ => .inr (.inr rfl)⟩
  | finished hi' => exact absurd hi' hi
  | status new hkeep => exact .same ⟨rfl, fun _ => rfl, fun h => h.status hkeep⟩
  | negotiated val hkeep hgain hi =>
    exact .negotiated _ rfl hkeep fun hok => noRings_of_gain hok hgain hi
  | guestFeatures dev val word hword hdrv hi =>
    subst hword
    refine .guestFeatures _ rfl (ringFeaturesOf_legacy dev val) hi.1 hdrv fun hok => ?_
    cases i with
    | legacy offset v drain =>
      obtain ⟨hreset, hreg, rfl⟩ := hi
      simpa [negotiatesOnce, hreset, hreg, show t.driverOk = false from hdrv] using hok
    | _ => exact hi.2.elim
  | driverFeature val word hfeat hhalf hi =>
    refine .driverFeature _ rfl hi.1 hfeat fun hok => ?_
    cases i with
    | modern offset v drain =>
      obtain ⟨hreset, hreg, rfl⟩ := hi
      simpa [negotiatesOnce, hreset, hreg, hhalf, show t.featuresOk = false from hfeat] using hok
    | _ => exact hi.2.elim
  | kicked idx drain _ ht =>
    rcases ht with rfl | rfl
    · exact .same (same_kicked t idx drain)
    · exact .same (same_kicked t idx drain).setNeedsReset
  | resized idx q size hq =>
    obtain ⟨-, -, rfl⟩ := VirtQueue.setSize_eq_ok.1 hq
    exact .same ((Same.refl t).setQueue rfl)
  | unset idx q hq hc =>
    exact .same ((((Same.refl t).setQueue hq.ringFeatures).setEnabled ..).note _)
  | accepted idx q hq hok =>
    exact .same (((((Same.refl t).note _).setQueue hq.ringFeatures).setEnabled ..).note _)
  | refused idx q hq =>
    exact .same ((same_refused _ hq.ringFeatures).setEnabled ..).setNeedsReset
  | refusedModern idx hsel hbad hi =>
    exact .same (same_refused _ rfl).setNeedsReset

-- ==== what a step preserves

/-- Under the condition, a queue with rings keeps its ring features. -/
theorem FeatureStep.rings (h : FeatureStep ok t t') (hok : ok) (hc : t.configured idx = true) :
    t'.ringFeatures idx = t.ringFeatures idx := by
  cases h with
  | same hs => exact hs.rings idx
  | guestFeatures features hvs hplain hreset hdrv hguard =>
    have hp : t.ringFeatures idx = (false, false) :=
      of_decide_eq_true (hguard hok).2 idx hc
    rw [hp, ← hplain]
    unfold ringFeatures
    rw [hvs]
    rfl
  | driverFeature features hvs hreset hfeat hguard =>
    unfold ringFeatures
    rw [hvs]
  | negotiated status hvs hkeep hguard =>
    have hnone : t.configured idx = false :=
      of_decide_eq_true (hguard hok) idx
    rw [hnone] at hc
    cases hc

/-- Under the condition, a frozen feature word stays as it is, and stays
frozen. -/
theorem FeatureStep.word (h : FeatureStep ok t t') (hok : ok) (hf : t.Frozen) :
    t'.Frozen ∧ t'.vs.guestFeatures = t.vs.guestFeatures := by
  cases h with
  | same hs => exact ⟨hs.frozen hf, hs.word⟩
  | guestFeatures features hvs hplain hreset hdrv hguard =>
    rcases hf with hf | hf | hf
    · rw [(hguard hok).1] at hf; cases hf
    · rw [hdrv] at hf; cases hf
    · rw [hreset] at hf; cases hf
  | driverFeature features hvs hreset hfeat hguard =>
    rcases hf with hf | hf | hf
    · rw [hfeat] at hf; cases hf
    · rw [hguard hok] at hf; cases hf
    · rw [hreset] at hf; cases hf
  | negotiated status hvs hkeep hguard =>
    have hf' := hf.status hkeep
    unfold Frozen featuresOk driverOk
    rw [hvs]
    exact ⟨hf', rfl⟩

-- ==== runs

variable {inputs : List (Input n)}

/-- A run under the condition keeps the ring features of a queue that has
rings in every state of it. -/
theorem runs_rings : ∀ {t u : Transport n}, runs dev negotiatesOnce t inputs = some u →
      (∀ pre, pre <+: inputs → ∀ v, runs dev negotiatesOnce t pre = some v →
        v.configured idx = true) →
      u.ringFeatures idx = t.ringFeatures idx := by
  induction inputs with
  | nil =>
    intro t u h _
    cases h
    rfl
  | cons i rest ih =>
    intro t u h hcfg
    obtain ⟨v, hv, hrest⟩ := Conc.run_cons_eq_some.1 h
    obtain ⟨hok, hstep⟩ := Conc.guarded_eq_some.1 hv
    have ht : t.configured idx = true :=
      hcfg [] (List.nil_prefix) t rfl
    have hone : v.ringFeatures idx = t.ringFeatures idx := by
      by_cases hi : i = .finishReset
      · subst hi
        rw [step_finishReset hstep]
        rfl
      · exact (featureStep_step hi hstep).rings hok ht
    rw [← hone]
    apply ih hrest
    intro pre hpre w hw
    apply hcfg (i :: pre) ((List.prefix_cons_inj i).2 hpre) w
    exact Conc.run_cons_eq_some.2 ⟨v, hv, hw⟩

/-- A run under the condition keeps a frozen feature word until it publishes
a reset. -/
theorem runs_word : ∀ {t u : Transport n}, runs dev negotiatesOnce t inputs = some u →
      t.Frozen → (∀ i ∈ inputs, i ≠ .finishReset) →
      u.vs.guestFeatures = t.vs.guestFeatures := by
  induction inputs with
  | nil =>
    intro t u h _ _
    cases h
    rfl
  | cons i rest ih =>
    intro t u h hf hno
    obtain ⟨v, hv, hrest⟩ := Conc.run_cons_eq_some.1 h
    obtain ⟨hok, hstep⟩ := Conc.guarded_eq_some.1 hv
    have hi : i ≠ .finishReset := hno i List.mem_cons_self
    have hone := (featureStep_step hi hstep).word hok hf
    rw [← hone.2]
    exact ih hrest hone.1 fun j hj => hno j (List.mem_cons_of_mem i hj)

end Transport

-- ==== one driver

/-- A device with one queue of eight entries that offers EVENT_IDX. -/
def oneQueue : Shape := ⟨1, 8, fRingEventIdx, none⟩

/-- One megabyte of RAM at address zero. -/
def oneMegabyte : Mem.AddressSpace where
  regions :=
    [⟨0, 0x100000, .ram, ⟨0, ⟨1, 0x100000, .rw⟩, .rwx⟩, ⟨2, 0x100000, .rw⟩⟩]

/-- Writes to the common configuration of BAR2, one offset and value each. -/
def commonWrites (ws : List (BitVec 16 × BitVec 32)) : List (Input 1) :=
  ws.map fun w => .modern w.1 w.2 fun _ => ⟨0, 0, false⟩

/-- A modern driver up to its enabled queue: ACKNOWLEDGE, DRIVER, both
halves of the features, FEATURES_OK, the three rings and QUEUE_ENABLE. -/
def modernDriver : List (Input 1) :=
  commonWrites [(0x14, 1), (0x14, 3), (0x08, 0), (0x0C, 0x20000000), (0x08, 1), (0x0C, 1),
      (0x14, 11), (0x16, 0), (0x20, 0x1000), (0x28, 0x2000), (0x30, 0x3000),
      (0x1C, 1)]

/-- A GUEST_FEATURES write of zero on BAR0. -/
def legacyFeatureWrite : Input 1 := .legacy 0x04 0 fun _ => ⟨0, 0, false⟩

namespace Transport

/-- The ring features of a queue never change while it has rings, and the
feature word never changes between FEATURES_OK (or DRIVER_OK) and the next
reset, in every run in which neither face negotiates after the other has
finished or under a ring. -/
theorem features_stable (dev : BitVec 64) (t u : Transport n)
    (inputs : List (Input n))
    (h : runs dev negotiatesOnce t inputs = some u) :
    (∀ idx : Fin n,
      (∀ pre, pre <+: inputs → ∀ v, runs dev negotiatesOnce t pre = some v →
        v.configured idx = true) →
      u.ringFeatures idx = t.ringFeatures idx) ∧
    (t.featuresOk = true ∨ t.driverOk = true →
      (∀ i ∈ inputs, i ≠ .finishReset) →
      u.vs.guestFeatures = t.vs.guestFeatures) := by
  constructor
  · intro idx hcfg
    exact runs_rings h hcfg
  · intro hf hno
    apply runs_word h _ hno
    rcases hf with hf | hf
    · exact .inl hf
    · exact .inr (.inl hf)

/-- The driver of `modernDriver` goes on to DRIVER_OK. -/
theorem features_stable_modernDriver :
    ∃ t u : Transport 1,
      runs fRingEventIdx negotiatesOnce (.new oneQueue oneMegabyte)
        modernDriver = some t ∧
      runs fRingEventIdx negotiatesOnce t (commonWrites [(0x14, 15)])
        = some u ∧
      t.configured 0 = true ∧ t.featuresOk = true ∧ u.driverOk = true ∧
      u.ringFeatures 0 = t.ringFeatures 0 ∧
      u.vs.guestFeatures = t.vs.guestFeatures := by
  obtain ⟨t, ht, u, hu, hct, hcu, hf, hd⟩ :
      ∃ t, @runs 1 fRingEventIdx negotiatesOnce (.new oneQueue oneMegabyte)
        modernDriver = some t ∧
      ∃ u, runs fRingEventIdx negotiatesOnce t (commonWrites [(0x14, 15)])
          = some u ∧
        t.configured 0 = true ∧ u.configured 0 = true ∧
        t.featuresOk = true ∧ u.driverOk = true := by
    decide
  have hstable := features_stable fRingEventIdx t u _ hu
  refine ⟨t, u, ht, hu, hct, hf, hd, ?_, ?_⟩
  · apply hstable.1 0
    intro pre hpre v hv
    rcases List.prefix_cons_iff.1 hpre with rfl | ⟨rest, rfl, hrest⟩
    · cases hv
      exact hct
    · rw [List.prefix_nil.1 hrest] at hv
      have huv : some u = some v := hu.symm.trans hv
      cases huv
      exact hcu
  · apply hstable.2 (.inl hf)
    intro i hi
    rw [List.mem_singleton.1 hi]
    intro hne
    cases hne

/-- A driver that has negotiated and enabled a queue through BAR2 can still
take its features away through BAR0: the word changes after FEATURES_OK and
EVENT_IDX is turned off under the live ring. -/
theorem legacy_rewrites_negotiated :
    ∃ t u : Transport 1,
      Conc.run (step fRingEventIdx) (.new oneQueue oneMegabyte) modernDriver
        = some t ∧
      t.step fRingEventIdx legacyFeatureWrite = some u ∧
      t.featuresOk = true ∧ t.configured 0 = true ∧ u.configured 0 = true ∧
      u.ringFeatures 0 ≠ t.ringFeatures 0 ∧
      u.vs.guestFeatures ≠ t.vs.guestFeatures := by
  obtain ⟨t, ht, u, hu, h⟩ : ∃ t, Conc.run (@step 1 fRingEventIdx)
      (.new oneQueue oneMegabyte) modernDriver = some t ∧
      ∃ u, t.step fRingEventIdx legacyFeatureWrite = some u ∧
        t.featuresOk = true ∧ t.configured 0 = true ∧
        u.configured 0 = true ∧ u.ringFeatures 0 ≠ t.ringFeatures 0 ∧
        u.vs.guestFeatures ≠ t.vs.guestFeatures := by
    decide
  exact ⟨t, u, ht, hu, h⟩

end Transport

end Rshyve.Virtio.Pci
