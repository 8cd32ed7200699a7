/-
# The shape every device keeps

What holds of a device in every state, whatever its drivers write: each
queue has a size its device offers, the vectors the interrupt path reads are
the ones in the registers, the MSI-X table fits the device, and outside a
reset every queue with rings is flagged enabled. An export reads exactly
these, and a restore checks them.
-/
import Rshyve.Virtio.Proofs.PciFeatures

namespace Rshyve.Virtio.Pci

open Function

-- ==== queue sizes

namespace VirtQueue

/-- A queue of a device that offers `max`, at a size the device takes. -/
structure Sized (max : BitVec 16) (q : VirtQueue) : Prop where
  max : q.maxSize = max
  size : q.sizeOffered q.size = true

variable {max : BitVec 16} {q : VirtQueue}

theorem Sized.of_eq {q' : VirtQueue} (h : Sized max q)
    (hm : q'.maxSize = q.maxSize) (hs : q'.size = q.size) : Sized max q' := by
  refine ⟨hm.trans h.max, ?_⟩
  unfold sizeOffered
  rw [hm, hs]
  exact h.size

theorem sized_of_full (hmax : isPowerOfTwo max = true) (hm : q.maxSize = max)
    (hs : q.size = max) : Sized max q := by
  refine ⟨hm, ?_⟩
  have hz : (max == 0) = false := by
    unfold isPowerOfTwo at hmax
    rw [Bool.and_eq_true, bne_iff_ne] at hmax
    exact beq_eq_false_iff_ne.2 hmax.1
  have hle : decide (max > max) = false := by simp
  unfold sizeOffered
  rw [hm, hs, hz, hmax, hle]
  rfl

theorem Sized.reset (hmax : isPowerOfTwo max = true) (h : Sized max q) : Sized max q.reset :=
  sized_of_full hmax h.max h.max

theorem Sized.setSize {q' : VirtQueue} {size : BitVec 16} (h : Sized max q)
    (hs : q.setSize size = .ok q') : Sized max q' := by
  obtain ⟨ho, -, rfl⟩ := setSize_eq_ok.1 hs
  exact ⟨h.max, ho⟩

theorem Sized.drained (h : Sized max q) (mem : Mem.AddressSpace) (d : Drain) :
    Sized max (q.drained mem d) := by
  obtain ⟨_, _, _, hd⟩ := q.drained_eq mem d
  rw [hd]
  exact h.of_eq rfl rfl

end VirtQueue

-- ==== the invariant

namespace Transport

/-- What holds of a device of shape `sh` in every state. -/
structure Shaped (sh : Shape) (t : Transport sh.numQueues) : Prop where
  sized : ∀ i, (t.vs.queues i).Sized sh.queueSize
  queueVectors : t.msixQueueVectors = t.vs.queueMsixVectors
  configVector : t.msixConfigVector = t.vs.configMsixVector
  table : t.msix.isSome = sh.vectors.isSome
  fits : ∀ c m, sh.vectors = some c → t.msix = some m → m.Fits c
  live : t.vs.resetting = false → ∀ i, t.configured i = true → t.vs.queueEnabled i = true
  generation : t.vs.configGeneration = 0

variable {sh : Shape} {t : Transport sh.numQueues}

theorem shaped_new (hsh : sh.Ok) (mem : Mem.AddressSpace) : Shaped sh (.new sh mem) where
  sized _ := VirtQueue.sized_of_full hsh.size rfl rfl
  queueVectors := rfl
  configVector := rfl
  table := by
    show (sh.vectors.map _).isSome = _
    rw [Option.isSome_map]
  fits c m hc hm := by
    unfold Transport.new at hm
    rw [hc] at hm
    cases hm
    exact MsixTable.fits_new c
  live _ i h := by cases h
  generation := rfl

section

variable (h : Shaped sh t)
include h

theorem Shaped.plain {t' : Transport sh.numQueues} (hp : Plain t t') : Shaped sh t' where
  sized := by rw [hp.queues]; exact h.sized
  queueVectors := hp.queueVectors h.queueVectors
  configVector := hp.configVector h.configVector
  table := hp.table.trans h.table
  fits c m hc := hp.fits c (fun m hm => h.fits c m hc hm) m
  live := by
    unfold configured
    rw [hp.latch, hp.queues, hp.enabled]
    exact h.live
  generation := hp.generation.trans h.generation

theorem Shaped.status (status : BitVec 8) (log : List (Event sh.numQueues)) :
    Shaped sh { t with
        vs := { t.vs with status := status }, log := log } :=
  { h with }

theorem Shaped.setNeedsReset : Shaped sh t.setNeedsReset := by
  unfold Transport.setNeedsReset
  split
  · exact h
  · exact h.status _ _

variable {idx : Fin sh.numQueues} {q : VirtQueue}

/-- A queue and its flag together: rings come with the flag set. -/
theorem Shaped.program {b : Bool}
    (hs : q.Sized sh.queueSize) (hlive : q.isConfigured = true → b = true)
    (log : List (Event sh.numQueues)) :
    Shaped sh { (t.setQueue idx q).setEnabled idx b with log := log } :=
  { h with
    sized := fun i => by
      show (update t.vs.queues idx q i).Sized _
      by_cases hi : i = idx
      · rw [hi, update_self]
        exact hs
      · rw [update_of_ne hi]
        exact h.sized i
    live := fun hres i hc => by
      change (update t.vs.queues idx q i).isConfigured = true at hc
      show update t.vs.queueEnabled idx b i = true
      by_cases hi : i = idx
      · rw [hi, update_self] at hc ⊢
        exact hlive hc
      · rw [update_of_ne hi] at hc ⊢
        exact h.live hres i hc }

theorem Shaped.replace (hs : q.Sized sh.queueSize) (hc : q.isConfigured = false)
    (log : List (Event sh.numQueues)) :
    Shaped sh { t.setQueue idx q with log := log } := by
  have hp : Shaped sh
      { (t.setQueue idx q).setEnabled idx (t.vs.queueEnabled idx) with
        log := log } := by
    refine h.program hs (fun h' => ?_) log
    rw [hc] at h'
    cases h'
  unfold setEnabled at hp
  rw [show (t.setQueue idx q).vs.queueEnabled = t.vs.queueEnabled from rfl, update_eq_self] at hp
  exact hp

theorem Shaped.kicked (idx : Fin sh.numQueues) (drain : Fin sh.numQueues → VirtQueue.Drain) :
    Shaped sh (t.kicked idx drain) :=
  { h with
    sized := fun i => (h.sized i).drained _ _
    live := fun hr i hc => by
      apply h.live hr i
      rw [← hc]
      obtain ⟨_, _, _, hd⟩ := (t.vs.queues i).drained_eq t.mem (drain i)
      show _ = ((t.vs.queues i).drained t.mem (drain i)).isConfigured
      rw [hd]
      rfl }

theorem Shaped.applyFeatures (features : BitVec 64) (status : BitVec 8)
    (log : List (Event sh.numQueues)) :
    Shaped sh
      { t with
        vs := { t.vs with
          guestFeatures := features, status := status }.applyFeatures
        log := log } :=
  { h with sized := fun i => (h.sized i).of_eq rfl rfl }

theorem Shaped.finishReset (hsh : sh.Ok) : Shaped sh t.finishReset where
  sized i := (h.sized i).reset hsh.size
  queueVectors := rfl
  configVector := rfl
  table := Option.isSome_map.trans h.table
  fits c m hc hm := by
    obtain ⟨m', hm', rfl⟩ := Option.map_eq_some_iff.1 hm
    exact (h.fits c m' hc hm').clearPending
  live _ i hc := by cases hc
  generation := h.generation

theorem Shaped.step (hsh : sh.Ok) {dev : BitVec 64} {i : Input sh.numQueues}
    {t' : Transport sh.numQueues} (hs : t.step dev i = some t') :
    Shaped sh t' := by
  cases change_step hs with
  | plain hp => exact h.plain hp
  | needsReset => exact h.setNeedsReset
  | closed => exact { h with live := fun hr => nomatch hr }
  | finished _ => exact h.finishReset hsh
  | status new _ => exact h.status new t.log
  | negotiated val _ _ _ => exact h.applyFeatures t.vs.guestFeatures _ _
  | guestFeatures _ _ word _ _ _ => exact h.applyFeatures word t.vs.status _
  | driverFeature _ word _ _ _ => exact { h with }
  | kicked idx drain _ ht =>
    rcases ht with rfl | rfl
    · exact h.kicked idx drain
    · exact (h.kicked idx drain).setNeedsReset
  | resized idx q size hq =>
    have hs := (h.sized idx).setSize hq
    obtain ⟨-, hc, rfl⟩ := VirtQueue.setSize_eq_ok.1 hq
    exact h.replace hs hc t.log
  | unset idx q hq hc =>
    refine h.program ((h.sized idx).of_eq hq.maxSize hq.size) (fun h' => ?_) _
    rw [hc] at h'
    cases h'
  | accepted idx q hq hok =>
    exact h.program ((h.sized idx).of_eq hq.maxSize hq.size) (fun _ => rfl) _
  | refused idx q hq =>
    apply Shaped.setNeedsReset
    exact h.program (((h.sized idx).of_eq hq.maxSize hq.size).reset hsh.size) nofun _
  | refusedModern idx _ _ _ =>
    apply Shaped.setNeedsReset
    have hs : (t.addressed idx).Sized sh.queueSize :=
      (h.sized idx).of_eq rfl rfl
    exact h.replace (hs.reset hsh.size) rfl _

end

theorem shaped_run (hsh : sh.Ok) {mem : Mem.AddressSpace} {dev : BitVec 64}
    {inputs : List (Input sh.numQueues)}
    (h : Conc.run (Transport.step dev) (.new sh mem) inputs = some t) :
    Shaped sh t :=
  Conc.run_inv (fun _ _ _ hs hstep => hs.step hsh hstep) h (shaped_new hsh mem)

end Transport

end Rshyve.Virtio.Pci
