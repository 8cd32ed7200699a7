/-
# What a payload from the wire can make of a device

The peer of a migration is not authenticated. `restore_checked` says what a
restore on a fresh device leaves for every payload that is taken: a state a
driver's register writes could have left, exactly if the payload keeps to
the offer (`KeepsOffer`). A payload the checks refuse leaves the device as
it was.

# The two gaps

The checks read neither the feature word nor the rings of a queue marked
dead. A driver's feature write is masked by the offer, a restored one is
not (`restored_feature_not_offered`). And a kick asks only whether a queue
is configured, so a queue that arrives marked dead on rings nobody checked
takes kicks (`restored_dead_not_validated`); its rings are looked at when
the device first reads them.
-/
import Rshyve.Virtio.Proofs.PciMigrate

namespace Rshyve.Virtio.Pci

open Rshyve.Mem (AddressSpace)

namespace Transport

variable {n : Nat}

-- ==== queues as a map

/-- Payload queues that pass the checks are one entry each for distinct
queues of the device. -/
theorem checkQueues_cases (hn : n ≤ 4) {d : Transport n} {features : BitVec 64} :
    ∀ (qs : List VirtioMigrateQueue) (seen : Fin n → Bool),
      d.checkQueues features seen qs = .ok () →
      ∃ (is : List (Fin n)) (w : Fin n → VirtioMigrateQueue),
        (∀ i, (w i).queueIdx.toNat = i) ∧ is.Nodup ∧
        (∀ i ∈ is, seen i = false) ∧ qs = is.map w := by
  intro qs
  induction qs with
  | nil =>
    intro seen _
    refine ⟨[], fun i => ⟨BitVec.ofNat 16 i, 0, 0, 0, 0, false, 0, 0, 0⟩,
      fun i => ?_, List.nodup_nil, by simp, rfl⟩
    have hi := i.isLt
    rw [BitVec.toNat_ofNat, Nat.mod_eq_of_lt (by omega)]
  | cons q qs ih =>
    intro seen hck
    unfold checkQueues at hck
    by_cases hlt : q.queueIdx.toNat < n
    · rw [dif_pos hlt] at hck
      simp only [] at hck
      by_cases hs : seen ⟨q.queueIdx.toNat, hlt⟩ = true
      · rw [if_pos hs] at hck
        cases hck
      · rw [if_neg hs] at hck
        obtain ⟨⟨⟩, -, hck⟩ := Mem.bind_eq_ok.1 hck
        obtain ⟨is, w, hidx, hnd, hseen, hqs⟩ := ih _ hck
        -- the head's queue is marked, so it is none of the others
        have hnot : (⟨q.queueIdx.toNat, hlt⟩ : Fin n) ∉ is := by
          intro hmem
          have hold := hseen _ hmem
          rw [Function.update_self] at hold
          cases hold
        refine ⟨⟨q.queueIdx.toNat, hlt⟩ :: is, Function.update w ⟨q.queueIdx.toNat, hlt⟩ q, ?_,
          List.nodup_cons.2 ⟨hnot, hnd⟩, ?_, ?_⟩
        · intro i
          by_cases hi : i = ⟨q.queueIdx.toNat, hlt⟩
          · rw [hi, Function.update_self]
          · rw [Function.update_of_ne hi]
            exact hidx i
        · intro i hi
          rcases List.mem_cons.1 hi with hi | hi
          · rw [hi]
            exact Bool.eq_false_iff.2 hs
          · have hne : i ≠ ⟨q.queueIdx.toNat, hlt⟩ := by
              intro h
              rw [h] at hi
              exact hnot hi
            have hold := hseen i hi
            rw [Function.update_of_ne hne] at hold
            exact hold
        · rw [List.map_cons, Function.update_self, hqs]
          congr 1
          refine List.map_congr_left fun i hi => ?_
          have hne : i ≠ ⟨q.queueIdx.toNat, hlt⟩ := by
            intro h
            rw [h] at hi
            exact hnot hi
          rw [Function.update_of_ne hne]
    · rw [dif_neg hlt] at hck
      cases hck

-- ==== stages that touch the table

/-- Only the MSI-X table may differ, and it keeps its length. -/
def OnlyTable (t t' : Transport n) : Prop :=
  ∃ m : Option MsixTable, t' = { t with msix := m } ∧ m.map (·.count) = t.msix.map (·.count)

theorem OnlyTable.refl (t : Transport n) : OnlyTable t t := ⟨t.msix, rfl, rfl⟩

variable {t t' : Transport n}

theorem OnlyTable.trans {t'' : Transport n} (h : OnlyTable t t')
    (h' : OnlyTable t' t'') : OnlyTable t t'' := by
  obtain ⟨m, rfl, hm⟩ := h
  obtain ⟨m', rfl, hm'⟩ := h'
  exact ⟨m', rfl, hm'.trans hm⟩

theorem OnlyTable.tableLen (h : OnlyTable t t') : t'.tableLen = t.tableLen := by
  obtain ⟨m, rfl, hm⟩ := h
  unfold Transport.tableLen
  rw [hm]

variable {st : VirtioMigrateState}

theorem OnlyTable.restoreMsix (h : t.restoreMsix st = .ok t') : OnlyTable t t' := by
  unfold Transport.restoreMsix at h
  split at h
  · rename_i table wire htable _
    split at h
    · rename_i table' himp
      cases h
      refine ⟨some table', rfl, ?_⟩
      -- the import refuses a table of another length
      unfold MsixTable.importState at himp
      split at himp
      · cases himp
      · rename_i hlen
        split at himp
        · cases himp
        · split at himp
          · cases himp
          · cases himp
            rw [htable]
            simp only [Option.map_some, MsixTable.count, List.length_map]
            exact congrArg some (Decidable.not_not.1 hlen)
    · cases h
  · cases h
    exact .refl t

theorem OnlyTable.raiseQueue (t : Transport n) (v : BitVec 16) : OnlyTable t (t.raiseQueue v) := by
  unfold Transport.raiseQueue
  split
  · exact .refl t
  · refine ⟨_, rfl, ?_⟩
    rw [Option.map_map]
    congr 1
    funext m
    exact congrArg List.length (m.fire_table v.toNat).1

theorem OnlyTable.wakeQueues (qs : List VirtioMigrateQueue) :
    ∀ t : Transport n, OnlyTable t (t.wakeQueues qs) := by
  induction qs with
  | nil => exact fun t => .refl t
  | cons q qs ih =>
    intro t
    unfold Transport.wakeQueues
    rw [List.foldl_cons]
    refine OnlyTable.trans ?_ (ih _)
    split
    · exact .raiseQueue t _
    · exact .refl t

-- ==== a restored device

/-- What a driver's register writes cannot leave: a feature that was not
offered, a queue that takes kicks on rings that did not pass, a vector past
the table. -/
structure Drivable (sh : Shape) (d : Transport sh.numQueues) : Prop where
  features : d.vs.guestFeatures &&& ~~~modernFeatures sh.deviceFeatures = 0
  rings : ∀ i, d.configured i = true → (d.vs.queues i).RingsIn d.mem
  sizes : ∀ i, d.configured i = true →
    (d.vs.queues i).sizeOffered (d.vs.queues i).size = true ∧
      (d.vs.queues i).maxSize = sh.queueSize
  config : vectorFits d.vs.configMsixVector d.tableLen = true ∧
    vectorFits d.msixConfigVector d.tableLen = true
  vectors : ∀ i, vectorFits (d.vs.queueMsixVectors i) d.tableLen = true ∧
    vectorFits (d.msixQueueVectors i) d.tableLen = true

/-- The payload keeps to what the device offers: no other feature, and no
queue with a descriptor table on rings that do not pass. -/
def KeepsOffer (sh : Shape) (mem : AddressSpace) (st : VirtioMigrateState) :
    Prop :=
  st.features &&& ~~~modernFeatures sh.deviceFeatures = 0 ∧
    ∀ qs ∈ st.queues, qs.descAddr ≠ 0 → (probe st.features qs).RingsIn mem

theorem vectorFits_noVector (len : Nat) : vectorFits msiNoVector len = true :=
  rfl

section Restored

variable {sh : Shape} {mem : AddressSpace} {st : VirtioMigrateState}
variable {is : List (Fin sh.numQueues)}
variable {w : Fin sh.numQueues → VirtioMigrateQueue}

/-- A fresh device with the payload's queues and status put back. -/
def putIn (sh : Shape) (mem : AddressSpace) (st : VirtioMigrateState)
    (w : Fin sh.numQueues → VirtioMigrateQueue)
    (is : List (Fin sh.numQueues)) : Transport sh.numQueues :=
  (((Transport.new sh mem).restoreFeatures st.features).putBack w is ).restoreStatus st

variable {i : Fin sh.numQueues}

theorem putIn_queue (hi : i ∈ is) : (putIn sh mem st w is).vs.queues i = restoredQueue
      (((Transport.new sh mem).restoreFeatures st.features).vs.queues i)
      (w i) :=
  if_pos hi

/-- The configured queues are those the payload gives a table. -/
theorem putIn_configured :
    (putIn sh mem st w is).configured i = true ↔
      i ∈ is ∧ (w i).descAddr ≠ 0 := by
  unfold configured
  by_cases hi : i ∈ is
  · rw [putIn_queue hi, and_iff_right hi]
    exact bne_iff_ne
  · have hq : (putIn sh mem st w is).vs.queues i =
        ((Transport.new sh mem).restoreFeatures st.features).vs.queues i :=
      if_neg hi
    rw [hq]
    exact iff_of_false Bool.false_ne_true fun h => hi h.1

/-- The rings of a queue put back are the ones the check probes. -/
theorem putIn_rings (hi : i ∈ is) :
    ((putIn sh mem st w is).vs.queues i).RingsIn mem ↔
      (probe st.features (w i)).RingsIn mem := by
  rw [putIn_queue hi]
  refine forall_congr' fun ring => ?_
  cases ring with
  | desc => exact Iff.rfl
  | avail => exact Iff.rfl
  | used => exact Iff.rfl

/-- What the checks say of the payload, the device put back satisfies; the
rest is that the payload keeps to the offer. -/
theorem drivable_putIn (hidx : ∀ i, (w i).queueIdx.toNat = i)
    (hnd : is.Nodup) (hqs : st.queues = is.map w)
    (hck : (Transport.new sh mem).checkMigrateState st = .ok ()) :
    Drivable sh (putIn sh mem st w is) ↔ KeepsOffer sh mem st := by
  have hlen : (putIn sh mem st w is).tableLen =
      (Transport.new sh mem).tableLen := rfl
  unfold checkMigrateState at hck
  split at hck
  · cases hck
  obtain ⟨⟨⟩, hcfg, hck⟩ := Mem.bind_eq_ok.1 hck
  rw [hqs, checkQueues_eq_ok hidx is _ hnd (fun _ _ => rfl)] at hck
  have hone := fun i hi => checkQueue_eq_ok.1 (hck i hi)
  have hvec : ∀ i, vectorFits ((putIn sh mem st w is).vs.queueMsixVectors i)
      (Transport.new sh mem).tableLen = true := by
    intro i
    by_cases hi : i ∈ is
    · have hv : (putIn sh mem st w is).vs.queueMsixVectors i =
          (w i).msixVector := if_pos hi
      rw [hv]
      exact (hone i hi).2.2.1
    · have hv : (putIn sh mem st w is).vs.queueMsixVectors i =
          msiNoVector := if_neg hi
      rw [hv]
      exact vectorFits_noVector _
  constructor
  · refine fun h => ⟨h.features, fun qs hmem haddr => ?_⟩
    rw [hqs] at hmem
    obtain ⟨i, hi, rfl⟩ := List.mem_map.mp hmem
    exact (putIn_rings hi).mp (h.rings i (putIn_configured.mpr ⟨hi, haddr⟩))
  rintro ⟨hfeat, hrings⟩
  refine ⟨hfeat, ?_, ?_, ?_, ?_⟩
  · intro i hc
    obtain ⟨hi, haddr⟩ := putIn_configured.mp hc
    exact (putIn_rings hi).mpr
      (hrings (w i) (hqs ▸ List.mem_map_of_mem hi) haddr)
  · intro i hc
    have hi := (putIn_configured.mp hc).1
    rw [putIn_queue hi]
    exact ⟨(hone i hi).1, rfl⟩
  · rw [hlen]
    exact ⟨checkVector_eq_ok.1 hcfg, checkVector_eq_ok.1 hcfg⟩
  · intro i
    rw [hlen]
    -- the register and the vector in use are written together
    exact ⟨hvec i, hvec i⟩

/-- The MSI-X table has no part in it but for its length. -/
theorem drivable_onlyTable {d d' : Transport sh.numQueues}
    (ho : OnlyTable d d') : Drivable sh d' ↔ Drivable sh d := by
  have hlen := ho.tableLen
  obtain ⟨m, rfl, -⟩ := ho
  constructor
  · intro h
    exact ⟨h.features, h.rings, h.sizes, hlen ▸ h.config,
      fun i => hlen ▸ h.vectors i⟩
  · intro h
    exact ⟨h.features, h.rings, h.sizes, hlen.symm ▸ h.config,
      fun i => hlen.symm ▸ h.vectors i⟩

end Restored

-- ==== the restore

theorem restoreQueuesIn_eq_ok {qs : List VirtioMigrateQueue} :
    ∀ {t d : Transport n}, t.restoreQueuesIn qs = (.ok (), d) ↔ t.restoreQueues qs = .ok d := by
  induction qs with
  | nil =>
    intro t d
    simp [restoreQueuesIn, restoreQueues]
  | cons q qs ih =>
    intro t d
    unfold restoreQueuesIn restoreQueues
    split
    · simp only []
      split
      · rename_i e he
        rw [he]
        simp [bind, Except.bind]
      · rename_i t' ht'
        rw [ht']
        exact ih
    · simp

/-- The two forms of the restore agree on what succeeds. -/
theorem restoreMigrateQueuesIn_eq_ok {d : Transport n} {b : DestBackend} :
    t.restoreMigrateQueuesIn b st = (.ok (), d) ↔ t.restoreMigrateQueues b st = .ok d := by
  unfold restoreMigrateQueuesIn restoreMigrateQueues
  cases t.checkMigrateState st with
  | error e => simp [bind, Except.bind]
  | ok _ =>
  cases b.resetAllRings with
  | error e => simp [bind, Except.bind]
  | ok _ =>
  simp only [bind, Except.bind]
  cases hq : (t.restoreFeatures st.features).restoreQueues st.queues with
  | error e =>
    cases hin : (t.restoreFeatures st.features).restoreQueuesIn st.queues with
    | mk r d' =>
    cases r with
    | error e' => simp
    | ok _ =>
      rw [restoreQueuesIn_eq_ok, hq] at hin
      cases hin
  | ok t' =>
  rw [restoreQueuesIn_eq_ok.2 hq]
  simp only []
  cases (t'.restoreStatus st).restoreMsix st with
  | error e => simp
  | ok t'' =>
  simp only []
  cases t''.restoreRings b st.queues with
  | error e => simp
  | ok _ => simp [pure, Except.pure]

theorem drivable_restore {sh : Shape} (hsh : sh.Ok) {mem : AddressSpace}
    {b : DestBackend} {d : Transport sh.numQueues}
    (hd : (Transport.new sh mem).restoreMigrateQueues b st = .ok d) :
    Drivable sh d ↔ KeepsOffer sh mem st := by
  obtain ⟨⟨⟩, hck, hd⟩ := Mem.bind_eq_ok.1 hd
  obtain ⟨⟨⟩, -, hd⟩ := Mem.bind_eq_ok.1 hd
  obtain ⟨t₁, hqueues, hd⟩ := Mem.bind_eq_ok.1 hd
  obtain ⟨t₂, hmsix, hd⟩ := Mem.bind_eq_ok.1 hd
  obtain ⟨⟨⟩, -, hd⟩ := Mem.bind_eq_ok.1 hd
  cases hd
  have hcks := hck
  unfold checkMigrateState at hcks
  split at hcks
  · cases hcks
  obtain ⟨⟨⟩, -, hcks⟩ := Mem.bind_eq_ok.1 hcks
  obtain ⟨is, w, hidx, hnd, -, hqs⟩ := checkQueues_cases hsh.queues _ _ hcks
  have hone := (checkQueues_eq_ok hidx is _ hnd (fun _ _ => rfl)).1 (hqs ▸ hcks)
  have hput := restoreQueues_eq hidx is ((Transport.new sh mem).restoreFeatures st.features) hnd
    (fun i hi => (checkQueue_eq_ok.1 (hone i hi)).1)
  rw [hqs, hput] at hqueues
  cases hqueues
  have htable := (OnlyTable.restoreMsix hmsix).trans
    (.wakeQueues st.queues _)
  exact (drivable_onlyTable htable).trans (drivable_putIn hidx hnd hqs hck)

/-- For every payload: one that is taken leaves a state a driver could have
programmed, exactly if it keeps to the offer, and one the checks refuse
leaves the device alone. -/
theorem restore_checked (sh : Shape) (hsh : sh.Ok) (mem : AddressSpace)
    (b : DestBackend) (st : VirtioMigrateState) (r : Except String Unit)
    (d : Transport sh.numQueues)
    (hd : (Transport.new sh mem).restoreMigrateQueuesIn b st = (r, d)) :
    (r = .ok () → (Drivable sh d ↔ KeepsOffer sh mem st)) ∧
      (∀ e, (Transport.new sh mem).checkMigrateState st = .error e →
        r = .error e ∧ d = Transport.new sh mem) := by
  constructor
  · intro hr
    rw [hr] at hd
    exact drivable_restore hsh (restoreMigrateQueuesIn_eq_ok.1 hd)
  · intro e he
    unfold restoreMigrateQueuesIn at hd
    rw [he] at hd
    cases hd
    exact ⟨rfl, rfl⟩

/-- A payload with one queue for a device like `oneQueue`. -/
def oneQueuePayload (features : BitVec 64) (live : Bool) (ring : BitVec 64) : VirtioMigrateState :=
  ⟨0x0f, features, msiNoVector, none, [⟨0, 8, ring, ring, ring, live, 0, 0, msiNoVector⟩]⟩

/-- A modern queue at one megabyte less a page, taken; and one past the end
of memory, refused with the device as it was. -/
theorem restore_checked_oneQueue :
    (∃ d : Transport 1, (Transport.new oneQueue oneMegabyte
        ).restoreMigrateQueuesIn softDest
        (oneQueuePayload fVersion1 true 0xff000) = (.ok (), d) ∧
      d.configured 0 = true ∧ Drivable oneQueue d) ∧
    (∃ e, (Transport.new oneQueue oneMegabyte).restoreMigrateQueuesIn softDest
        (oneQueuePayload fVersion1 true 0x100000)
      = (.error e, Transport.new oneQueue oneMegabyte)) := by
  constructor
  · have hd : (Transport.new oneQueue oneMegabyte).restoreMigrateQueuesIn
        softDest (oneQueuePayload fVersion1 true 0xff000) = (.ok (), _) := rfl
    refine ⟨_, hd, by decide, ((restore_checked oneQueue
      ⟨by decide, by decide⟩ oneMegabyte softDest _ _ _ hd).1 rfl).mpr
        ⟨by decide, fun qs hqs _ => ?_⟩⟩
    obtain rfl := List.mem_singleton.mp hqs
    exact VirtQueue.validateAddrs_eq_ok.mp rfl
  · cases hck : (Transport.new oneQueue oneMegabyte).checkMigrateState
        (oneQueuePayload fVersion1 true 0x100000) with
    | ok _ =>
      have hno : ((Transport.new oneQueue oneMegabyte).checkMigrateState
          (oneQueuePayload fVersion1 true 0x100000)).isOk = false := by
        decide
      rw [hck] at hno
      cases hno
    | error e =>
      obtain ⟨hr, hd⟩ := (restore_checked oneQueue ⟨by decide, by decide⟩
        oneMegabyte softDest (oneQueuePayload fVersion1 true 0x100000)
        _ _ rfl).2 e hck
      exact ⟨e, Prod.ext hr hd⟩

/-- A feature the device does not offer is negotiated after the restore. -/
theorem restored_feature_not_offered :
    ∃ d : Transport 1, (Transport.new oneQueue oneMegabyte
        ).restoreMigrateQueuesIn softDest
        (oneQueuePayload (fVersion1 ||| 1) true 0x1000) = (.ok (), d) ∧
      d.vs.guestFeatures &&& ~~~modernFeatures oneQueue.deviceFeatures
        = 1 := by
  refine ⟨_, rfl, ?_⟩
  decide

/-- A queue that arrives marked dead takes kicks, on rings past the end of
memory. -/
theorem restored_dead_not_validated : ∀ features ∈ [0, fVersion1],
    ∃ d : Transport 1, (Transport.new oneQueue oneMegabyte
        ).restoreMigrateQueuesIn softDest
        (oneQueuePayload features false 0x100000) = (.ok (), d) ∧
      d.vs.canNotify 0 = true ∧
      ((d.vs.queues 0).validateAddrs d.mem).isOk = false := by
  intro features h
  rcases List.mem_pair.mp h with rfl | rfl
  · exact ⟨_, rfl, by decide, by decide⟩
  · exact ⟨_, rfl, by decide, by decide⟩

end Transport

end Rshyve.Virtio.Pci
