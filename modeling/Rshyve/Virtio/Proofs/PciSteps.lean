/-
# What an input does to a device

Whatever a guest writes, a device changes in one of a few ways. `Change`
lists them and `change_step` finds the one of an input, register after
register; what holds of a device in every state is then shown change by
change.
-/
import Rshyve.Virtio.Pci.Transport

namespace Rshyve.Virtio.Pci

variable {n : Nat}

/-- An event that is neither an attempt nor a kick. -/
def Event.quiet : Event n → Bool
  | .programmed _ | .notifyQueue _ => false
  | _ => true

/-- The same queue at other addresses. -/
structure Readdressed (q q' : VirtQueue) : Prop where
  maxSize : q'.maxSize = q.maxSize
  size : q'.size = q.size
  eventIdx : q'.eventIdx = q.eventIdx
  indirectSupported : q'.indirectSupported = q.indirectSupported

namespace Transport

/-- The input writes `val` to a register, legacy or modern, of a device that
takes it. -/
def Wrote (t : Transport n) (i : Input n) (reg : LegacyReg ⊕ CommonReg) (val : BitVec 32) : Prop :=
  t.vs.resetting = false ∧ match i, reg with
    | .legacy offset v _, .inl reg =>
      LegacyReg.decode t.msixEnabled offset = reg ∧ v = val
    | .modern offset v _, .inr reg =>
      ModernReg.decode offset = .common reg ∧ v = val
    | _, _ => False

/-- Nothing about queues or features changes. -/
structure Plain (t t' : Transport n) : Prop where
  queues : t'.vs.queues = t.vs.queues
  enabled : t'.vs.queueEnabled = t.vs.queueEnabled
  word : t'.vs.guestFeatures = t.vs.guestFeatures
  status : t'.vs.status = t.vs.status
  latch : t'.vs.resetting = t.vs.resetting
  generation : t'.vs.configGeneration = t.vs.configGeneration
  queueVectors : t.msixQueueVectors = t.vs.queueMsixVectors →
    t'.msixQueueVectors = t'.vs.queueMsixVectors
  configVector : t.msixConfigVector = t.vs.configMsixVector →
    t'.msixConfigVector = t'.vs.configMsixVector
  table : t'.msix.isSome = t.msix.isSome
  fits : ∀ c, (∀ m, t.msix = some m → m.Fits c) → ∀ m, t'.msix = some m → m.Fits c
  log : t'.log = t.log ∨ ∃ e, e.quiet = true ∧ t'.log = t.log ++ [e]

/-- The device after the backend had a kick. -/
def kicked (t : Transport n) (idx : Fin n) (drain : Fin n → VirtQueue.Drain) : Transport n :=
  { t with
    vs := { t.vs with
      queues := fun i => (t.vs.queues i).drained t.mem (drain i) }
    log := t.log ++ [.notifyQueue idx] }

/-- The ways a device changes. A queue is refused by either face, but only
the legacy one takes its flag back. -/
inductive Change (t : Transport n) (i : Input n) : Transport n → Prop where
  | plain {t' : Transport n} (h : Plain t t') : Change t i t'
  | needsReset : Change t i t.setNeedsReset
  | closed : Change t i
      { t with
        vs := { t.vs with
          resetting := true
          status := t.vs.status &&& ~~~statusDriverOk
          queueEnabled := fun _ => false } }
  | finished (hi : i = .finishReset) : Change t i t.finishReset
  | status (new : BitVec 8) (hkeep : new &&& t.vs.status = t.vs.status) :
      Change t i { t with
    vs := { t.vs with status := new } }
  | negotiated (val : BitVec 32) (hkeep : val.setWidth 8 &&& t.vs.status = t.vs.status)
      (hgain : has (val.setWidth 8 &&& ~~~t.vs.status) statusFeaturesOk = true)
      (hi : t.Wrote i (.inl .deviceStatus) val ∨ t.Wrote i (.inr .deviceStatus) val) :
      Change t i
        { t with
          vs := { t.vs with status := val.setWidth 8 }.applyFeatures
          log := t.log ++ [.setFeatures t.vs.guestFeatures] }
  | guestFeatures (dev : BitVec 64) (val : BitVec 32) (word : BitVec 64)
      (hword : word = (val &&& legacyFeatures dev).setWidth 64)
      (hdrv : has t.vs.status statusDriverOk = false)
      (hi : t.Wrote i (.inl .guestFeatures) val) :
      Change t i
        { t with
          vs := { t.vs with guestFeatures := word }.applyFeatures
          log := t.log ++ [.setFeatures word] }
  | driverFeature (val : BitVec 32) (word : BitVec 64)
      (hfeat : has t.vs.status statusFeaturesOk = false)
      (hhalf : (Half.ofSelect t.vs.driverFeatureSelect).isNone = false)
      (hi : t.Wrote i (.inr .driverFeature) val) :
      Change t i { t with
        vs := { t.vs with guestFeatures := word } }
  | kicked {t' : Transport n} (idx : Fin n) (drain : Fin n → VirtQueue.Drain)
      (hc : (t.vs.queues idx).isConfigured = true)
      (ht : t' = t.kicked idx drain ∨ t' = (t.kicked idx drain).setNeedsReset) :
      Change t i t'
  | resized (idx : Fin n) (q : VirtQueue) (size : BitVec 16)
      (hq : (t.vs.queues idx).setSize size = .ok q) :
      Change t i (t.setQueue idx q)
  | unset (idx : Fin n) (q : VirtQueue)
      (hq : Readdressed (t.vs.queues idx) q) (hc : q.isConfigured = false) :
      Change t i (((t.setQueue idx q).setEnabled idx false).note (.queueAddrSet idx q))
  | accepted (idx : Fin n) (q : VirtQueue) (hq : Readdressed (t.vs.queues idx) q)
      (hok : q.validateAddrs t.mem = .ok ()) :
      Change t i ((((t.note (.programmed ⟨idx, q, t.mem⟩)).setQueue idx q).setEnabled idx
          true).note (.queueAddrSet idx q))
  | refused (idx : Fin n) (q : VirtQueue) (hq : Readdressed (t.vs.queues idx) q) : Change t i
        (((t.note (.programmed ⟨idx, q, t.mem⟩)).setQueue idx q.reset).setEnabled
          idx false).setNeedsReset
  | refusedModern (idx : Fin n) (hsel : t.vs.selected = some idx)
      (hbad : ((t.addressed idx).validateAddrs t.mem).isOk = false)
      (hi : t.Wrote i (.inr .queueEnable) 1) :
      Change t i ((t.note (.programmed ⟨idx, t.addressed idx, t.mem⟩)).setQueue idx
          (t.addressed idx).reset).setNeedsReset

variable {t t' : Transport n} {i : Input n} {val : BitVec 32}

-- ==== every register

theorem change_regs (t : Transport n) (a : BitVec 16) (b c : BitVec 32)
    (d : Ring → Fin n → BitVec 64) (mem : Mem.AddressSpace) :
    Change t i
      { t with
        vs := { t.vs with
          queueSelect := a
          deviceFeatureSelect := b
          driverFeatureSelect := c
          queueAddr := d }
        mem := mem } :=
  .plain ⟨rfl, rfl, rfl, rfl, rfl, rfl, id, id, rfl, fun _ => id, .inl rfl⟩

theorem change_refl (t : Transport n) : Change t i t := change_regs t ..

theorem change_note (t : Transport n) {e : Event n} (he : e.quiet = true) : Change t i (t.note e) :=
  .plain ⟨rfl, rfl, rfl, rfl, rfl, rfl, id, id, rfl, fun _ => id, .inr ⟨e, he, rfl⟩⟩

theorem change_setQueueVector (t : Transport n) (v : BitVec 16) :
    Change t i (t.setQueueVector v) := by
  unfold setQueueVector
  split
  · exact change_refl t
  · refine .plain ⟨rfl, rfl, rfl, rfl, rfl, rfl, fun h => ?_, id, rfl, fun _ => id, .inl rfl⟩
    rw [h]

theorem change_setConfigVector (t : Transport n) (v : BitVec 16) :
    Change t i (t.setConfigVector v) :=
  .plain ⟨rfl, rfl, rfl, rfl, rfl, rfl, id, fun _ => rfl, rfl, fun _ => id, .inl rfl⟩

/-- An access to the table changes nothing else. -/
theorem change_mapMsix (t : Transport n) {f : MsixTable → MsixTable}
    (hf : ∀ c m, m.Fits c → (f m).Fits c) : Change t i (t.mapMsix f) := by
  refine .plain ⟨rfl, rfl, rfl, rfl, rfl, rfl, id, id, Option.isSome_map,
    fun c h m hm => ?_, .inl rfl⟩
  obtain ⟨m', hm', rfl⟩ := Option.map_eq_some_iff.1 hm
  exact hf c m' (h m' hm')

theorem change_writeStatus (hreset : t.vs.resetting = false)
    (hi : t.Wrote i (.inl .deviceStatus) val ∨ t.Wrote i (.inr .deviceStatus) val) :
    Change t i (t.writeStatus (val.setWidth 8)) := by
  unfold writeStatus
  split
  · unfold resetDevice
    rw [hreset]
    exact .closed
  · unfold setStatus
    split
    · exact .needsReset
    next hkeep =>
      rw [not_not] at hkeep
      dsimp only
      split
      next hgain => exact .negotiated val hkeep hgain hi
      next => exact .status _ hkeep

theorem change_notify (t : Transport n) (q : BitVec 16)
    (drain : Fin n → VirtQueue.Drain) : Change t i (t.notify q drain) := by
  unfold notify
  split
  next hq =>
    dsimp only
    split
    · exact change_refl t
    next hcan =>
      rw [Bool.not_eq_true, Bool.not_eq_false'] at hcan
      have hc := (Bool.and_eq_true_iff.1 hcan).2
      split
      · exact .kicked _ drain hc (.inr rfl)
      · exact .kicked _ drain hc (.inl rfl)
  · exact change_refl t

theorem change_writeQueuePfn (t : Transport n) (val : BitVec 32) :
    Change t i (t.writeQueuePfn val) := by
  unfold writeQueuePfn
  split
  · exact change_refl t
  next idx _ =>
    have hq : Readdressed (t.vs.queues idx) ((t.vs.queues idx).setAddrLegacy val) := by
      constructor <;> simp
    dsimp only
    split
    next hz =>
      refine .unset idx _ hq ?_
      unfold VirtQueue.setAddrLegacy
      rw [if_pos hz]
      rfl
    · split
      · exact .refused idx _ hq
      next hok => exact .accepted idx _ hq hok

theorem change_writeQueueEnable (hi : t.Wrote i (.inr .queueEnable) val) :
    Change t i (t.writeQueueEnable val) := by
  unfold writeQueueEnable
  split
  · exact change_refl t
  next idx hsel =>
    split
    · exact change_refl t
    next hval =>
      rw [not_not] at hval
      subst hval
      dsimp only
      split
      next e hbad =>
        refine .refusedModern idx hsel ?_ hi
        rw [show (t.addressed idx).validateAddrs t.mem = .error e from hbad]
        rfl
      next hok => exact .accepted idx _ ⟨rfl, rfl, rfl, rfl⟩ hok

variable {dev : BitVec 64}

theorem change_legacyWrite {reg : LegacyReg}
    {drain : Fin n → VirtQueue.Drain} (hi : t.Wrote i (.inl reg) val) :
    Change t i (t.legacyWrite dev reg val drain) := by
  cases reg with
  | guestFeatures =>
    show Change t i (t.writeGuestFeatures dev val)
    unfold writeGuestFeatures
    split
    · exact change_refl t
    next hdrv =>
      exact .guestFeatures dev val _ rfl (Bool.eq_false_iff.mpr hdrv) hi
  | queuePfn => exact change_writeQueuePfn t val
  | queueNotify => exact change_notify t _ drain
  | deviceStatus => exact change_writeStatus hi.1 (.inl hi)
  | msixConfigVector => exact change_setConfigVector t _
  | msixQueueVector => exact change_setQueueVector t _
  | deviceConfig offset => exact change_note t rfl
  | deviceFeatures | queueSize | queueSelect | isrStatus | unused =>
    exact change_regs t ..

theorem change_commonWrite {reg : CommonReg} (hi : t.Wrote i (.inr reg) val) :
    Change t i (t.commonWrite dev reg val) := by
  cases reg with
  | driverFeature =>
    show Change t i (t.writeDriverFeature dev val)
    unfold writeDriverFeature
    split
    · exact change_refl t
    next hfeat =>
      split
      · exact change_refl t
      next half hhalf =>
        exact .driverFeature val _ (Bool.eq_false_iff.mpr hfeat) (by rw [hhalf]; rfl) hi
  | deviceStatus => exact change_writeStatus hi.1 (.inr hi)
  | msixConfig => exact change_setConfigVector t _
  | queueMsixVector => exact change_setQueueVector t _
  | queueEnable => exact change_writeQueueEnable hi
  | queueSize =>
    show Change t i (t.writeQueueSize (val.setWidth 16))
    unfold writeQueueSize
    split
    · exact change_refl t
    · split
      · exact .needsReset
      next hq => exact .resized _ _ _ hq
  | queueAddr ring half =>
    show Change t i (t.writeQueueAddr ring half val)
    unfold writeQueueAddr
    split
    · exact change_refl t
    · exact change_regs t ..
  | deviceFeatureSelect | deviceFeature | driverFeatureSelect | numQueues
  | configGeneration | queueSelect | queueNotifyOff | unused =>
    exact change_regs t ..

theorem step_finishReset (h : t.step dev .finishReset = some t') : t' = t.finishReset := by
  simp only [step] at h
  split at h
  · cases h
    rfl
  · cases h

theorem change_step (h : t.step dev i = some t') : Change t i t' := by
  cases i with
  | finishReset =>
    rw [step_finishReset h]
    exact .finished rfl
  | legacy offset val drain =>
    cases h
    unfold barWrite
    split
    · exact change_refl t
    next hreset =>
      exact change_legacyWrite ⟨Bool.eq_false_iff.mpr hreset, rfl, rfl⟩
  | modern offset val drain =>
    cases h
    unfold modernBarWrite
    split
    · exact change_refl t
    next hreset =>
      split
      next hreg =>
        exact change_commonWrite ⟨Bool.eq_false_iff.mpr hreset, hreg, rfl⟩
      · exact change_note t rfl
      · exact change_notify t _ drain
      · exact change_refl t
      · exact change_refl t
  | msixTable offset val =>
    cases h
    exact change_mapMsix t fun _ _ hf => hf.tableWrite offset val
  | msixCap w =>
    cases h
    exact change_mapMsix t fun _ _ hf => hf.capWrite w
  | fire v =>
    cases h
    exact change_mapMsix t fun _ _ hf => hf.fire v
  | signalNeedsReset =>
    cases h
    split
    · exact change_refl t
    · exact .needsReset
  | memory mem =>
    cases h
    exact change_regs t ..

end Transport

end Rshyve.Virtio.Pci
