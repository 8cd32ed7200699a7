/-
# A transport carried to another host

What a restore of an export leaves on a fresh device of the same shape. The
export carries the status byte, the negotiated features, the vectors, the
MSI-X table and the configured queues. It does not carry the selectors, nor
anything of a queue without rings: `selectors_not_carried` is a driver
between two register writes whose queue selector is lost.

`restore_export` is the rest. The destination takes the payload exactly when
the vectors fit its table, no queue has more chains in flight than
descriptors and the rings lie in its memory, and every register the export
carries then reads as on the source. The queue's address registers read the
addresses its ring runs at.
-/
import Rshyve.Virtio.Pci.Migrate
import Rshyve.Virtio.Proofs.PciShape

namespace Rshyve.Virtio.Pci

open Function
open Rshyve.Mem (AddressSpace)

variable {qs : VirtioMigrateQueue}

namespace Transport

variable {n : Nat}

-- ==== the export

variable {t : Transport n} {b : SourceBackend n} {cur : Fin n → BitVec 16 × BitVec 16}

/-- The export is the configured queues, in order, with their cursors. -/
theorem exportQueues_eq : ∀ is : List (Fin n),
      (∀ i, t.configured i = true → t.cursors b i = .ok (cur i)) →
      t.exportQueues b is = .ok ((is.filter t.configured).map fun i => t.wireQueue i (cur i)) := by
  intro is hcur
  induction is with
  | nil => rfl
  | cons i is ih =>
    unfold exportQueues
    cases hc : (t.vs.queues i).isConfigured with
    | false =>
      rw [List.filter_cons_of_neg]
      · exact ih
      · show ¬ (t.vs.queues i).isConfigured = true
        rw [hc]
        exact Bool.false_ne_true
    | true =>
      rw [List.filter_cons_of_pos (show t.configured i = true from hc), hcur i hc, ih]
      rfl

/-- Outside a reset every configured queue is exported live. -/
theorem wireQueue_live {sh : Shape} {t : Transport sh.numQueues}
    (h : Shaped sh t) (hr : t.vs.resetting = false) {i : Fin sh.numQueues}
    (hc : t.configured i = true) (cur : BitVec 16 × BitVec 16) :
    (t.wireQueue i cur).live = true := by
  unfold wireQueue
  simp only []
  rw [h.live hr i hc]
  split <;> rfl

theorem wireQueue_idx (hn : n ≤ 4) (t : Transport n) (i : Fin n) (cur : BitVec 16 × BitVec 16) :
    (t.wireQueue i cur).queueIdx.toNat = i := by
  show (BitVec.ofNat 16 i).toNat = i
  rw [BitVec.toNat_ofNat, Nat.mod_eq_of_lt]
  have := i.isLt
  omega

-- ==== the checks

theorem checkVector_eq_ok {what : String} {v : BitVec 16} {len : Nat} :
    checkVector what v len = .ok () ↔ vectorFits v len = true := by
  unfold checkVector
  split <;> simp_all

variable {d : Transport n} {features : BitVec 64} {i : Fin n}

theorem checkQueue_eq_ok : d.checkQueue features i qs = .ok () ↔
      (d.vs.queues i).sizeOffered qs.queueSize = true ∧ qs.inFlight ≤ qs.queueSize ∧
        vectorFits qs.msixVector d.tableLen = true ∧
        (qs.live = true → (probe features qs).RingsIn d.mem) := by
  unfold checkQueue
  by_cases hs : (d.vs.queues i).sizeOffered qs.queueSize = true
  · rw [if_neg (by simp [hs])]
    by_cases hf : qs.inFlight ≤ qs.queueSize
    · rw [if_neg (by simpa using hf)]
      constructor
      · intro h
        obtain ⟨⟨⟩, hv, h⟩ := Mem.bind_eq_ok.1 h
        refine ⟨hs, hf, checkVector_eq_ok.1 hv, fun hl => ?_⟩
        rw [if_pos hl] at h
        apply VirtQueue.validateAddrs_eq_ok.1
        split at h
        · assumption
        · cases h
      · intro ⟨_, _, hv, hrings⟩
        refine Mem.bind_eq_ok.2 ⟨(), checkVector_eq_ok.2 hv, ?_⟩
        by_cases hl : qs.live = true
        · rw [if_pos hl, VirtQueue.validateAddrs_eq_ok.2 (hrings hl)]
        · rw [if_neg hl]
    · rw [if_pos (by simpa using hf)]
      constructor
      · intro h
        cases h
      · intro h
        exact absurd h.2.1 hf
  · rw [if_pos (by simpa using hs)]
    constructor
    · intro h
      cases h
    · intro h
      exact absurd h.1 hs

variable {w : Fin n → VirtioMigrateQueue}

/-- Queues that are there and differ are checked one by one. -/
theorem checkQueues_eq_ok (hidx : ∀ i, (w i).queueIdx.toNat = i) :
    ∀ (is : List (Fin n)) (seen : Fin n → Bool), is.Nodup → (∀ i ∈ is, seen i = false) →
      (d.checkQueues features seen (is.map w) = .ok () ↔
        ∀ i ∈ is, d.checkQueue features i (w i) = .ok ()) := by
  intro is
  induction is with
  | nil =>
    intro seen _ _
    simp [checkQueues]
  | cons i is ih =>
    intro seen hnd hseen
    obtain ⟨hi, hnd⟩ := List.nodup_cons.1 hnd
    have hlt : (w i).queueIdx.toNat < n := by
      rw [hidx]
      exact i.isLt
    have hfin : (⟨(w i).queueIdx.toNat, hlt⟩ : Fin n) = i :=
      Fin.ext (hidx i)
    have hrest := ih (update seen i true) hnd (by
      intro j hj
      have hne : j ≠ i := by
        intro h
        rw [h] at hj
        exact hi hj
      rw [update_of_ne hne]
      exact hseen j (List.mem_cons_of_mem i hj))
    rw [List.map_cons]
    unfold checkQueues
    rw [dif_pos hlt]
    simp only []
    rw [hfin, hseen i List.mem_cons_self]
    rw [if_neg Bool.false_ne_true]
    constructor
    · intro h
      obtain ⟨⟨⟩, hone, h⟩ := Mem.bind_eq_ok.1 h
      intro j hj
      rcases List.mem_cons.1 hj with rfl | hj
      · exact hone
      · exact hrest.1 h j hj
    · intro h
      refine Mem.bind_eq_ok.2 ⟨(), h i List.mem_cons_self, ?_⟩
      exact hrest.2 fun j hj => h j (List.mem_cons_of_mem i hj)

-- ==== the queues

/-- A queue as the restore leaves it. -/
def restoredQueue (q : VirtQueue) (qs : VirtioMigrateQueue) : VirtQueue :=
  ((({ q.reset with size := qs.queueSize } : VirtQueue).setAddrModern
    qs.descAddr qs.availAddr qs.usedAddr).setLastAvailIdx qs.availIdx
    ).setShadowUsedIdx qs.usedIdx

/-- The address of one ring on the wire. -/
def wireAddr (qs : VirtioMigrateQueue) : Ring → BitVec 64
  | .desc => qs.descAddr
  | .avail => qs.availAddr
  | .used => qs.usedAddr

/-- A device with one queue put back from the payload. -/
def putOne (d : Transport n) (i : Fin n) (qs : VirtioMigrateQueue) : Transport n :=
  { d with
    vs := { d.vs with
      queues := update d.vs.queues i (restoredQueue (d.vs.queues i) qs)
      queueAddr := fun ring =>
        update (d.vs.queueAddr ring) i (wireAddr qs ring)
      queueEnabled := update d.vs.queueEnabled i qs.live
      queueMsixVectors :=
        update d.vs.queueMsixVectors i qs.msixVector }
    msixQueueVectors := update d.msixQueueVectors i qs.msixVector }

theorem restoreQueue_eq (hs : (d.vs.queues i).sizeOffered qs.queueSize = true) :
    d.restoreQueue i qs = .ok (d.putOne i qs) := by
  have hset : (d.vs.queues i).reset.setSize qs.queueSize
      = .ok { (d.vs.queues i).reset with size := qs.queueSize } :=
    VirtQueue.setSize_eq_ok.2 ⟨hs, rfl, rfl⟩
  unfold restoreQueue
  rw [hset]
  rfl

/-- A device with the queues `is` put back from the payload. -/
def putBack (d : Transport n) (w : Fin n → VirtioMigrateQueue) (is : List (Fin n)) : Transport n :=
  { d with
    vs := { d.vs with
      queues := fun i =>
        if i ∈ is then restoredQueue (d.vs.queues i) (w i) else d.vs.queues i
      queueAddr := fun ring i =>
        if i ∈ is then wireAddr (w i) ring else d.vs.queueAddr ring i
      queueEnabled := fun i =>
        if i ∈ is then (w i).live else d.vs.queueEnabled i
      queueMsixVectors := fun i =>
        if i ∈ is then (w i).msixVector else d.vs.queueMsixVectors i }
    msixQueueVectors := fun i =>
      if i ∈ is then (w i).msixVector else d.msixQueueVectors i }

/-- Pointwise: what one more queue adds to the ones put back after it. -/
theorem update_ite {α : Type} {j : Fin n} {is : List (Fin n)} {f : Fin n → α}
    {a : α} {g : Fin n → α} (ha : a = g i) (hi : i ∉ is) :
    (if j ∈ is then g j else update f i a j) = if j ∈ i :: is then g j else f j := by
  by_cases hj : j = i
  · subst hj
    rw [if_neg hi, if_pos List.mem_cons_self, update_self, ha]
  · rw [update_of_ne hj]
    by_cases hm : j ∈ is
    · rw [if_pos hm, if_pos (List.mem_cons_of_mem i hm)]
    · have hnot : j ∉ i :: is := by
        rw [List.mem_cons, not_or]
        exact ⟨hj, hm⟩
      rw [if_neg hm, if_neg hnot]

theorem putBack_cons {is : List (Fin n)} (hi : i ∉ is) :
    (d.putOne i (w i)).putBack w is = d.putBack w (i :: is) := by
  -- a queue put back later starts from what it was
  have hq : ∀ j, (if j ∈ is then
        restoredQueue ((d.putOne i (w i)).vs.queues j) (w j)
      else (d.putOne i (w i)).vs.queues j)
      = if j ∈ i :: is then restoredQueue (d.vs.queues j) (w j)
        else d.vs.queues j := by
    intro j
    rw [← update_ite (f := d.vs.queues) (g := fun j => restoredQueue (d.vs.queues j) (w j)) rfl hi]
    by_cases hj : j ∈ is
    · have hne : j ≠ i := by
        intro h
        rw [h] at hj
        exact hi hj
      rw [if_pos hj, if_pos hj]
      show restoredQueue (update d.vs.queues i _ j) (w j) = _
      rw [update_of_ne hne]
    · rw [if_neg hj, if_neg hj]
      rfl
  have ha : ∀ ring j, (if j ∈ is then wireAddr (w j) ring
      else (d.putOne i (w i)).vs.queueAddr ring j)
      = if j ∈ i :: is then wireAddr (w j) ring
        else d.vs.queueAddr ring j := fun ring j =>
    update_ite (g := fun j => wireAddr (w j) ring) rfl hi
  have he : ∀ j, (if j ∈ is then (w j).live
      else (d.putOne i (w i)).vs.queueEnabled j)
      = if j ∈ i :: is then (w j).live else d.vs.queueEnabled j := fun j =>
    update_ite (g := fun j => (w j).live) rfl hi
  have hv : ∀ j, (if j ∈ is then (w j).msixVector
      else (d.putOne i (w i)).vs.queueMsixVectors j)
      = if j ∈ i :: is then (w j).msixVector
        else d.vs.queueMsixVectors j := fun j =>
    update_ite (g := fun j => (w j).msixVector) rfl hi
  have hc : ∀ j, (if j ∈ is then (w j).msixVector
      else (d.putOne i (w i)).msixQueueVectors j)
      = if j ∈ i :: is then (w j).msixVector
        else d.msixQueueVectors j := fun j =>
    update_ite (g := fun j => (w j).msixVector) rfl hi
  unfold putBack
  simp only [hq, ha, he, hv, hc]
  rfl

/-- The loop of the restore puts every queue back. -/
theorem restoreQueues_eq (hidx : ∀ i, (w i).queueIdx.toNat = i) :
    ∀ (is : List (Fin n)) (d : Transport n), is.Nodup →
      (∀ i ∈ is, (d.vs.queues i).sizeOffered (w i).queueSize = true) →
      d.restoreQueues (is.map w) = .ok (d.putBack w is) := by
  intro is
  induction is with
  | nil =>
    intro d _ _
    simp [restoreQueues, putBack]
  | cons i is ih =>
    intro d hnd hsize
    obtain ⟨hi, hnd⟩ := List.nodup_cons.1 hnd
    have hlt : (w i).queueIdx.toNat < n := by
      rw [hidx]
      exact i.isLt
    have hfin : (⟨(w i).queueIdx.toNat, hlt⟩ : Fin n) = i :=
      Fin.ext (hidx i)
    have hrest : (d.putOne i (w i)).restoreQueues (is.map w)
        = .ok ((d.putOne i (w i)).putBack w is) := by
      apply ih _ hnd
      intro j hj
      have hne : j ≠ i := by
        intro h
        rw [h] at hj
        exact hi hj
      show (update d.vs.queues i _ j).sizeOffered _ = true
      rw [update_of_ne hne]
      exact hsize j (List.mem_cons_of_mem i hj)
    rw [List.map_cons]
    unfold restoreQueues
    rw [dif_pos hlt, hfin, ← putBack_cons hi]
    exact Mem.bind_eq_ok.2 ⟨_, restoreQueue_eq (hsize i List.mem_cons_self), hrest⟩

-- ==== the table

/-- Waking a queue can only mark its vector pending. -/
structure Woken (vs : List VirtioMigrateQueue) (m m' : MsixTable) :
    Prop where
  entries : m'.entries = m.entries
  enabled : m'.enabled = m.enabled
  funcMasked : m'.funcMasked = m.funcMasked
  kept : ∀ v, m.pending v = true → m'.pending v = true
  marked : ∀ v, m'.pending v = true → m.pending v = true ∨
    ∃ qs ∈ vs, qs.live = true ∧ v = qs.msixVector.toNat

theorem Woken.refl (vs : List VirtioMigrateQueue) (m : MsixTable) : Woken vs m m :=
  ⟨rfl, rfl, rfl, fun _ => id, fun _ => .inl⟩

variable {vs : List VirtioMigrateQueue}

theorem Woken.fire {c : Nat} {m : MsixTable} (hf : m.Fits c) (hm : qs ∈ vs)
    (hl : qs.live = true) : Woken vs m (m.fire qs.msixVector.toNat).2 := by
  obtain ⟨h₁, h₂, h₃⟩ := m.fire_table qs.msixVector.toNat
  refine ⟨h₁, h₂, h₃, ?_, ?_⟩
  · intro v hv
    exact (MsixTable.pending_fire hf _ v).1 hv
  · intro v hv
    rcases (MsixTable.pending_fire hf _ v).2 hv with hp | heq
    · exact .inl hp
    · exact .inr ⟨qs, hm, hl, heq⟩

theorem Woken.trans {m m' m'' : MsixTable} (h : Woken vs m m')
    (h' : Woken vs m' m'') : Woken vs m m'' where
  entries := h'.entries.trans h.entries
  enabled := h'.enabled.trans h.enabled
  funcMasked := h'.funcMasked.trans h.funcMasked
  kept v hv := h'.kept v (h.kept v hv)
  marked v hv := by
    rcases h'.marked v hv with hp | hq
    · exact h.marked v hp
    · exact .inr hq

/-- The loop that wakes the queues only touches the table. -/
theorem wakeQueues_eq {c : Nat} : ∀ (qs : List VirtioMigrateQueue) (d : Transport n), qs ⊆ vs →
      (∀ m, d.msix = some m → m.Fits c) →
      ∃ f : MsixTable → MsixTable, d.wakeQueues qs = d.mapMsix f ∧
        ∀ m, d.msix = some m → Woken vs m (f m) := by
  intro qs
  induction qs with
  | nil =>
    intro d _ _
    refine ⟨id, ?_, fun m _ => .refl vs m⟩
    unfold mapMsix
    rw [Option.map_id]
    rfl
  | cons q qs ih =>
    intro d hsub hfits
    have hq : q ∈ vs := hsub List.mem_cons_self
    have hsub' : qs ⊆ vs := fun _ h => hsub (List.mem_cons_of_mem q h)
    by_cases hfire : q.live = true ∧ d.msixEnabled = true ∧ q.msixVector ≠ msiNoVector
    · obtain ⟨hl, hen, hv⟩ := hfire
      have hone : d.wakeQueues (q :: qs) = (d.mapMsix
          fun m => (m.fire q.msixVector.toNat).2).wakeQueues qs := by
        unfold wakeQueues
        rw [List.foldl_cons, if_pos hl]
        unfold raiseQueue
        rw [hen, if_neg]
        simp [hv]
      have hfits' : ∀ m, d.msix.map (fun m => (m.fire q.msixVector.toNat).2) = some m →
          m.Fits c := by
        intro m hm
        obtain ⟨m', hm', rfl⟩ := Option.map_eq_some_iff.1 hm
        exact (hfits m' hm').fire _
      obtain ⟨f, hf, hw⟩ := ih (d.mapMsix fun m => (m.fire q.msixVector.toNat).2) hsub' hfits'
      refine ⟨f ∘ fun m => (m.fire q.msixVector.toNat).2, ?_, ?_⟩
      · rw [hone, hf]
        unfold mapMsix
        rw [Option.map_map]
      · intro m hm
        refine (Woken.fire (hfits m hm) hq hl).trans (hw _ ?_)
        show d.msix.map _ = some _
        rw [hm]
        rfl
    · have hone : d.wakeQueues (q :: qs) = d.wakeQueues qs := by
        unfold wakeQueues
        rw [List.foldl_cons]
        congr 1
        split
        · rename_i hl
          unfold raiseQueue
          rw [if_pos]
          rw [Bool.or_eq_true, Bool.not_eq_true', beq_iff_eq]
          by_cases hen : d.msixEnabled = true
          · right
            by_contra hv
            exact hfire ⟨hl, hen, hv⟩
          · left
            rw [Bool.not_eq_true] at hen
            exact hen
        · rfl
      rw [hone]
      exact ih d hsub' hfits

-- ==== the round trip

/-- The queues an export carries. -/
def configuredQueues (t : Transport n) : List (Fin n) :=
  (List.finRange n).filter t.configured

theorem mem_configuredQueues : i ∈ t.configuredQueues ↔ t.configured i = true := by
  unfold configuredQueues
  rw [List.mem_filter]
  simp

/-- When a destination with memory `mem` takes the payload: the vectors fit
its table, no ring holds more chains than descriptors, and the rings lie in
its memory. -/
structure Restorable (sh : Shape) (t : Transport sh.numQueues)
    (cur : Fin sh.numQueues → BitVec 16 × BitVec 16) (mem : AddressSpace) :
    Prop where
  config : vectorFits t.vs.configMsixVector (sh.vectors.getD 0) = true
  vectors : ∀ i, t.configured i = true →
    vectorFits (t.vs.queueMsixVectors i) (sh.vectors.getD 0) = true
  inFlight : ∀ i, t.configured i = true → (cur i).1 - (cur i).2 ≤ (t.vs.queues i).size
  rings : ∀ i, t.configured i = true →
    (probe t.vs.guestFeatures (t.wireQueue i (cur i))).RingsIn mem

/-- The payload of an export. -/
def payload (t : Transport n) (cur : Fin n → BitVec 16 × BitVec 16) : VirtioMigrateState where
  status := t.vs.status
  features := t.vs.guestFeatures
  configMsixVector := t.msixConfigVector
  msix := t.msix.map MsixTable.exportState
  queues := t.configuredQueues.map fun i => t.wireQueue i (cur i)

theorem export_eq (hcur : ∀ i, t.configured i = true → t.cursors b i = .ok (cur i)) :
    t.exportMigrateQueues b = .ok (t.payload cur) := by
  unfold exportMigrateQueues
  rw [exportQueues_eq (List.finRange n) hcur]
  rfl

section RoundTrip

variable {sh : Shape} {t : Transport sh.numQueues}
variable {cur : Fin sh.numQueues → BitVec 16 × BitVec 16}

theorem tableLen_new (mem : AddressSpace) :
    (Transport.new sh mem).tableLen = sh.vectors.getD 0 := by
  unfold tableLen Transport.new
  cases sh.vectors with
  | none => rfl
  | some c =>
    simp [MsixTable.count, MsixTable.new]

theorem sizeOffered_new (h : Shaped sh t) (mem : AddressSpace) (i : Fin sh.numQueues) :
    ((Transport.new sh mem).vs.queues i).sizeOffered (t.vs.queues i).size = true := by
  have hs := (h.sized i).size
  unfold VirtQueue.sizeOffered at *
  rw [(h.sized i).max] at hs
  exact hs

/-- The checks of a fresh device of the same shape. -/
theorem check_payload (hsh : sh.Ok) (h : Shaped sh t) (hr : t.vs.resetting = false)
    (cur : Fin sh.numQueues → BitVec 16 × BitVec 16) (mem : AddressSpace) :
    (Transport.new sh mem).checkMigrateState (t.payload cur) = .ok () ↔
      Restorable sh t cur mem := by
  have hmsix : (t.payload cur).msix.isSome = (Transport.new sh mem).msix.isSome := by
    show (t.msix.map _).isSome = (sh.vectors.map _).isSome
    rw [Option.isSome_map, Option.isSome_map]
    exact h.table
  have hidx : ∀ i, (t.wireQueue i (cur i)).queueIdx.toNat = i := fun i =>
    wireQueue_idx hsh.queues t i (cur i)
  have hqueues : (Transport.new sh mem).checkQueues t.vs.guestFeatures
      (fun _ => false) (t.payload cur).queues = .ok () ↔ _ :=
    checkQueues_eq_ok hidx t.configuredQueues (fun _ => false)
      ((List.nodup_finRange _).filter _) (fun _ _ => rfl)
  have hone : ∀ i, t.configured i = true → ((Transport.new sh mem).checkQueue t.vs.guestFeatures i
        (t.wireQueue i (cur i)) = .ok () ↔
        (cur i).1 - (cur i).2 ≤ (t.vs.queues i).size ∧
        vectorFits (t.vs.queueMsixVectors i) (sh.vectors.getD 0) = true ∧
        (probe t.vs.guestFeatures (t.wireQueue i (cur i))).RingsIn mem) := by
    intro i hc
    have hl := wireQueue_live h hr hc (cur i)
    rw [checkQueue_eq_ok, tableLen_new, ← h.queueVectors]
    constructor
    · intro ⟨_, hf, hv, hrings⟩
      exact ⟨hf, hv, hrings hl⟩
    · intro ⟨hf, hv, hrings⟩
      exact ⟨sizeOffered_new h mem i, hf, hv, fun _ => hrings⟩
  unfold checkMigrateState
  rw [if_neg (by simpa using hmsix)]
  constructor
  · intro hck
    obtain ⟨⟨⟩, hv, hck⟩ := Mem.bind_eq_ok.1 hck
    have hall := hqueues.1 hck
    have hcfg := checkVector_eq_ok.1 hv
    rw [tableLen_new] at hcfg
    have hq := fun i hc => (hone i hc).1 (hall i (mem_configuredQueues.2 hc))
    refine ⟨?_, fun i hc => (hq i hc).2.1, fun i hc => (hq i hc).1, fun i hc => (hq i hc).2.2⟩
    rw [← h.configVector]
    exact hcfg
  · intro hres
    refine Mem.bind_eq_ok.2 ⟨(), checkVector_eq_ok.2 ?_, hqueues.2 ?_⟩
    · rw [tableLen_new]
      show vectorFits t.msixConfigVector _ = true
      rw [h.configVector]
      exact hres.config
    · intro i hi
      have hc := mem_configuredQueues.1 hi
      exact (hone i hc).2 ⟨hres.inFlight i hc, hres.vectors i hc, hres.rings i hc⟩

/-- A fresh device with everything of the payload put back, before its
queues are woken. -/
def restored (t : Transport sh.numQueues)
    (cur : Fin sh.numQueues → BitVec 16 × BitVec 16) (mem : AddressSpace) :
    Transport sh.numQueues :=
  { ((((Transport.new sh mem).restoreFeatures t.vs.guestFeatures).putBack
      (fun i => t.wireQueue i (cur i)) t.configuredQueues).restoreStatus
      (t.payload cur)) with
    msix := t.msix }

/-- A table that fits imports; a device without one has nothing to import. -/
theorem restoreMsix_payload (h : Shaped sh t) {d : Transport sh.numQueues}
    (hd : d.msix = sh.vectors.map .new) :
    d.restoreMsix (t.payload cur) = .ok { d with msix := t.msix } := by
  unfold restoreMsix
  cases hv : sh.vectors with
  | none =>
    have ht : t.msix = none := by
      have := h.table
      rw [hv] at this
      simpa using this
    rw [hv] at hd
    rw [show d.msix = none from hd, ht]
    simp only [Except.ok.injEq]
    cases d
    cases hd
    rfl
  | some c =>
    rw [hv] at hd
    cases hm : t.msix with
    | none =>
      have := h.table
      rw [hv, hm] at this
      cases this
    | some m =>
      have himp := MsixTable.importState_exportState (h.fits c m hv hm) (MsixTable.fits_new c)
      rw [show d.msix = some (.new c) from hd, show (t.payload cur).msix = some m.exportState by
          unfold payload
          rw [hm]
          rfl]
      simp only [himp]

theorem restoreRings_eq_ok {d : Transport n} {b : DestBackend}
    (hb : ∀ qs addr data, b.restoreRingState qs addr data = .ok ()) :
    ∀ qs : List VirtioMigrateQueue, d.restoreRings b qs = .ok () := by
  intro qs
  induction qs with
  | nil => rfl
  | cons q qs ih =>
    unfold restoreRings
    split
    · exact ih
    · exact Mem.bind_eq_ok.2 ⟨(), hb _ _ _, ih⟩

/-- Past the checks, and with a backend that takes the rings, nothing of
the restore fails. -/
theorem restore_payload (hsh : sh.Ok) (h : Shaped sh t) {mem : AddressSpace}
    {b : DestBackend} (hreset : b.resetAllRings = .ok ())
    (hb : ∀ qs addr data, b.restoreRingState qs addr data = .ok ())
    (hck : (Transport.new sh mem).checkMigrateState (t.payload cur) = .ok ()) :
    (Transport.new sh mem).restoreMigrateQueues b (t.payload cur) =
      .ok ((t.restored cur mem).wakeQueues (t.payload cur).queues) := by
  have hqueues := restoreQueues_eq
    (fun i => wireQueue_idx hsh.queues t i (cur i)) t.configuredQueues
    ((Transport.new sh mem).restoreFeatures t.vs.guestFeatures)
    ((List.nodup_finRange _).filter _)
    (fun i _ => sizeOffered_new h mem i)
  refine Mem.bind_eq_ok.2 ⟨(), hck, ?_⟩
  refine Mem.bind_eq_ok.2 ⟨(), hreset, ?_⟩
  refine Mem.bind_eq_ok.2 ⟨_, hqueues, ?_⟩
  refine Mem.bind_eq_ok.2 ⟨_, restoreMsix_payload h rfl, ?_⟩
  exact Mem.bind_eq_ok.2 ⟨(), restoreRings_eq_ok hb _, rfl⟩

end RoundTrip

-- ==== what a guest reads

/-- The device after its driver selected queue `i`. -/
def select (dev : BitVec 64) (t : Transport n) (i : Fin n) : Transport n :=
  t.commonWrite dev .queueSelect (BitVec.ofNat 32 i)

theorem selected_select (hn : n ≤ 4) (dev : BitVec 64) (t : Transport n)
    (i : Fin n) : (t.select dev i).vs.selected = some i := by
  have hi := i.isLt
  have hsel : ((BitVec.ofNat 32 i).setWidth 16).toNat = i := by
    rw [BitVec.toNat_setWidth, BitVec.toNat_ofNat]
    omega
  unfold VirtioPciState.selected
  have hlt : (t.select dev i).vs.queueSelect.toNat < n := by
    show ((BitVec.ofNat 32 i).setWidth 16).toNat < n
    rw [hsel]
    exact hi
  rw [dif_pos hlt]
  congr 1
  exact Fin.ext hsel

/-- How a restored device `d` reads next to its source `t`: the same in
every register the export carries, and as a fresh device in the rest. The
MSI-X table reads the same; waking the queues may have marked their masked
vectors pending. -/
structure Restored (sh : Shape) (t d : Transport sh.numQueues) : Prop where
  common : ∀ reg ∈ [CommonReg.msixConfig, .numQueues, .deviceStatus, .configGeneration],
    d.commonRead sh.deviceFeatures reg = t.commonRead sh.deviceFeatures reg
  legacy : ∀ reg ∈ [LegacyReg.deviceFeatures, .guestFeatures, .deviceStatus, .msixConfigVector],
    d.legacyRead sh.deviceFeatures reg = t.legacyRead sh.deviceFeatures reg
  driverFeature : ∀ sel, (d.commonWrite sh.deviceFeatures .driverFeatureSelect sel).commonRead
      sh.deviceFeatures .driverFeature =
    (t.commonWrite sh.deviceFeatures .driverFeatureSelect sel).commonRead
      sh.deviceFeatures .driverFeature
  queue : ∀ i, t.configured i = true →
    ∀ reg ∈ [CommonReg.queueSize, .queueMsixVector, .queueEnable],
      (d.select sh.deviceFeatures i).commonRead sh.deviceFeatures reg =
      (t.select sh.deviceFeatures i).commonRead sh.deviceFeatures reg
  queueLegacy : ∀ i, t.configured i = true →
    ∀ reg ∈ [LegacyReg.queuePfn, .queueSize, .msixQueueVector],
      (d.select sh.deviceFeatures i).legacyRead sh.deviceFeatures reg =
      (t.select sh.deviceFeatures i).legacyRead sh.deviceFeatures reg
  rings : ∀ i, t.configured i = true → ∀ ring half,
    (d.select sh.deviceFeatures i).commonRead sh.deviceFeatures
      (.queueAddr ring half) = half.read ((t.vs.queues i).addrOf ring)
  table : d.msix.isSome = t.msix.isSome
  msix : ∀ m m', t.msix = some m → d.msix = some m' →
    (∀ offset, m'.tableRead offset = m.tableRead offset) ∧
    m'.msgCtrl = m.msgCtrl ∧
    (∀ v, m.pending v = true → m'.pending v = true) ∧
    (∀ v, m'.pending v = true → m.pending v = true ∨
      ∃ i, t.configured i = true ∧ v = (t.vs.queueMsixVectors i).toNat)
  selectors : d.vs.queueSelect = 0 ∧ d.vs.deviceFeatureSelect = 0 ∧ d.vs.driverFeatureSelect = 0
  unset : ∀ i, t.configured i = false → (d.vs.queues i).isConfigured = false ∧
      (d.vs.queues i).size = sh.queueSize ∧
      d.vs.queueMsixVectors i = msiNoVector ∧
      d.vs.queueEnabled i = false ∧ ∀ ring, d.vs.queueAddr ring i = 0

section Reads

variable {sh : Shape} {t : Transport sh.numQueues}
variable {cur : Fin sh.numQueues → BitVec 16 × BitVec 16}
variable {mem : AddressSpace} {i : Fin sh.numQueues}

theorem restored_queue (hc : t.configured i = true) :
    (t.restored cur mem).vs.queues i = restoredQueue
      (((Transport.new sh mem).restoreFeatures t.vs.guestFeatures).vs.queues i)
      (t.wireQueue i (cur i)) :=
  if_pos (mem_configuredQueues.2 hc)

theorem restored_enabled (h : Shaped sh t) (hr : t.vs.resetting = false)
    (hc : t.configured i = true) :
    (t.restored cur mem).vs.queueEnabled i = t.vs.queueEnabled i := by
  have hin : (t.restored cur mem).vs.queueEnabled i = (t.wireQueue i (cur i)).live :=
    if_pos (mem_configuredQueues.2 hc)
  rw [hin, wireQueue_live h hr hc, h.live hr i hc]

theorem restored_vector (h : Shaped sh t) (hc : t.configured i = true) :
    (t.restored cur mem).vs.queueMsixVectors i = t.vs.queueMsixVectors i := by
  have hin : (t.restored cur mem).vs.queueMsixVectors i = t.msixQueueVectors i :=
    if_pos (mem_configuredQueues.2 hc)
  rw [hin, h.queueVectors]

theorem restored_addr (hc : t.configured i = true) (ring : Ring) :
    (t.restored cur mem).vs.queueAddr ring i = (t.vs.queues i).addrOf ring := by
  have hin : (t.restored cur mem).vs.queueAddr ring i = wireAddr (t.wireQueue i (cur i)) ring :=
    if_pos (mem_configuredQueues.2 hc)
  rw [hin]
  cases ring <;> rfl

/-- A queue the export does not carry is as on a fresh device. -/
theorem restored_unset (hc : t.configured i = false) :
    ((t.restored cur mem).vs.queues i).isConfigured = false ∧
      ((t.restored cur mem).vs.queues i).size = sh.queueSize ∧
      (t.restored cur mem).vs.queueMsixVectors i = msiNoVector ∧
      (t.restored cur mem).vs.queueEnabled i = false ∧
      ∀ ring, (t.restored cur mem).vs.queueAddr ring i = 0 := by
  have hnot : i ∉ t.configuredQueues := by
    rw [mem_configuredQueues, hc]
    exact Bool.false_ne_true
  have hq : (t.restored cur mem).vs.queues i = ((Transport.new sh mem).restoreFeatures
          t.vs.guestFeatures).vs.queues i := if_neg hnot
  refine ⟨?_, ?_, if_neg hnot, if_neg hnot, fun _ => if_neg hnot⟩
  · rw [hq]; rfl
  · rw [hq]; rfl

/-- The queues were woken: the table differs in pending bits only. -/
theorem wake_payload (h : Shaped sh t)
    (cur : Fin sh.numQueues → BitVec 16 × BitVec 16) (mem : AddressSpace) :
    ∃ f : MsixTable → MsixTable, (t.restored cur mem).wakeQueues (t.payload cur).queues
        = (t.restored cur mem).mapMsix f ∧
      ∀ m, t.msix = some m → Woken (t.payload cur).queues m (f m) := by
  apply wakeQueues_eq (c := sh.vectors.getD 0) _ _ (fun _ hq => hq)
  intro m hm
  cases hv : sh.vectors with
  | none =>
    have := h.table
    rw [hv, show t.msix = some m from hm] at this
    cases this
  | some c => exact h.fits c m hv hm

theorem restored_reads (hsh : sh.Ok) (h : Shaped sh t) (hr : t.vs.resetting = false) : Restored sh t
      ((t.restored cur mem).wakeQueues (t.payload cur).queues) := by
  obtain ⟨f, hf, hw⟩ := wake_payload h cur mem
  rw [hf]
  have hstatus : t.vs.readableStatus = t.vs.status := by
    unfold VirtioPciState.readableStatus
    rw [hr]
    rfl
  have hsel : ∀ (d : Transport sh.numQueues) i,
      (d.select sh.deviceFeatures i).vs.selected = some i :=
    selected_select hsh.queues sh.deviceFeatures
  refine ⟨?_, ?_, fun _ => rfl, ?_, ?_, ?_, ?_, ?_, ⟨rfl, rfl, rfl⟩, fun i hc => restored_unset hc⟩
  · intro reg hreg
    simp only [List.mem_cons, List.not_mem_nil, or_false] at hreg
    rcases hreg with rfl | rfl | rfl | rfl
    · show t.msixConfigVector.setWidth 32 = _
      rw [h.configVector]
      rfl
    · rfl
    · show t.vs.status.setWidth 32 = t.vs.readableStatus.setWidth 32
      rw [hstatus]
    · show _ = t.vs.configGeneration.setWidth 32
      rw [h.generation]
      rfl
  · intro reg hreg
    simp only [List.mem_cons, List.not_mem_nil, or_false] at hreg
    rcases hreg with rfl | rfl | rfl | rfl
    · rfl
    · rfl
    · show t.vs.status.setWidth 32 = t.vs.readableStatus.setWidth 32
      rw [hstatus]
    · show t.msixConfigVector.setWidth 32 = _
      rw [h.configVector]
      rfl
  · intro i hc reg hreg
    simp only [List.mem_cons, List.not_mem_nil, or_false] at hreg
    rcases hreg with rfl | rfl | rfl
    · unfold commonRead
      rw [hsel, hsel]
      show ((t.restored cur mem).vs.queues i).size.setWidth 32 = _
      rw [restored_queue hc]
      rfl
    · unfold commonRead
      rw [hsel, hsel]
      show ((t.restored cur mem).vs.queueMsixVectors i).setWidth 32 = _
      rw [restored_vector h hc]
      rfl
    · unfold commonRead
      rw [hsel, hsel]
      show (if (t.restored cur mem).vs.queueEnabled i then _ else _) = _
      rw [restored_enabled h hr hc]
      rfl
  · intro i hc reg hreg
    simp only [List.mem_cons, List.not_mem_nil, or_false] at hreg
    rcases hreg with rfl | rfl | rfl
    · unfold legacyRead
      rw [hsel, hsel]
      show ((t.restored cur mem).vs.queues i).pfn = (t.vs.queues i).pfn
      rw [restored_queue hc]
      rfl
    · unfold legacyRead
      rw [hsel, hsel]
      show ((t.restored cur mem).vs.queues i).size.setWidth 32 = _
      rw [restored_queue hc]
      rfl
    · unfold legacyRead
      rw [hsel, hsel]
      show ((t.restored cur mem).vs.queueMsixVectors i).setWidth 32 = _
      rw [restored_vector h hc]
      rfl
  · intro i hc ring half
    unfold commonRead
    rw [hsel]
    show half.read ((t.restored cur mem).vs.queueAddr ring i) = _
    rw [restored_addr hc]
  · show (t.msix.map f).isSome = _
    rw [Option.isSome_map]
  · intro m m' hm hm'
    have hm'' : m' = f m := by
      have hmap : t.msix.map f = some m' := hm'
      rw [hm] at hmap
      cases hmap
      rfl
    have hwoken := hw m hm
    rw [hm'']
    refine ⟨?_, ?_, hwoken.kept, ?_⟩
    · intro offset
      unfold MsixTable.tableRead
      rw [hwoken.entries]
    · unfold MsixTable.msgCtrl
      rw [hwoken.entries, hwoken.enabled, hwoken.funcMasked]
    · intro v hv
      rcases hwoken.marked v hv with hp | ⟨qs, hqs, _, rfl⟩
      · exact .inl hp
      · obtain ⟨i, hi, rfl⟩ := List.mem_map.1 hqs
        refine .inr ⟨i, mem_configuredQueues.1 hi, ?_⟩
        rw [← h.queueVectors]
        rfl

end Reads

/-- For every state a device can reach, outside a reset: the export
succeeds, a fresh device of the same shape takes it exactly when the payload
fits it, and then reads as the source does. -/
theorem restore_export (sh : Shape) (hsh : sh.Ok) (mem mem' : AddressSpace)
    (inputs : List (Input sh.numQueues)) (t : Transport sh.numQueues)
    (ht : Conc.run (step sh.deviceFeatures) (.new sh mem) inputs = some t)
    (hr : t.vs.resetting = false) (src : SourceBackend sh.numQueues)
    (cur : Fin sh.numQueues → BitVec 16 × BitVec 16)
    (hcur : ∀ i, t.configured i = true → t.cursors src i = .ok (cur i))
    (dst : DestBackend) (hreset : dst.resetAllRings = .ok ())
    (hdst : ∀ qs addr data, dst.restoreRingState qs addr data = .ok ()) :
    ∃ w, t.exportMigrateQueues src = .ok w ∧
      ((∃ d, (Transport.new sh mem').restoreMigrateQueues dst w = .ok d) ↔
        Restorable sh t cur mem') ∧
      ∀ d, (Transport.new sh mem').restoreMigrateQueues dst w = .ok d →
        Restored sh t d := by
  have h : Shaped sh t := shaped_run hsh ht
  have hcheck := check_payload hsh h hr cur mem'
  refine ⟨t.payload cur, export_eq hcur, ⟨?_, ?_⟩, ?_⟩
  · rintro ⟨d, hd⟩
    obtain ⟨⟨⟩, hck, -⟩ := Mem.bind_eq_ok.1 hd
    exact hcheck.1 hck
  · intro hres
    exact ⟨_, restore_payload hsh h hreset hdst (hcheck.2 hres)⟩
  · intro d hd
    obtain ⟨⟨⟩, hck, -⟩ := Mem.bind_eq_ok.1 hd
    rw [restore_payload hsh h hreset hdst hck] at hd
    cases hd
    exact restored_reads hsh h hr

/-- A software device keeps the defaults of both backends. -/
def softSource (n : Nat) : SourceBackend n := ⟨fun _ => .ok none, fun _ => 0⟩

def softDest : DestBackend := ⟨.ok (), fun _ _ _ => .ok ()⟩

/-- The driver of `modernDriver`, carried over with its enabled queue. -/
theorem restore_export_modernDriver :
    ∃ t d : Transport 1, ∃ w,
      Conc.run (step fRingEventIdx) (.new oneQueue oneMegabyte) modernDriver
        = some t ∧
      t.configured 0 = true ∧ t.exportMigrateQueues (softSource 1) = .ok w ∧
      (Transport.new oneQueue oneMegabyte).restoreMigrateQueues softDest w
        = .ok d ∧
      Restored oneQueue t d := by
  obtain ⟨t, ht, hc, hr, hok⟩ : ∃ t, Conc.run (@step 1 fRingEventIdx)
      (.new oneQueue oneMegabyte) modernDriver = some t ∧
      t.configured 0 = true ∧ t.vs.resetting = false ∧
      ((t.exportMigrateQueues (softSource 1)).bind
        ((Transport.new oneQueue oneMegabyte).restoreMigrateQueues
          softDest)).isOk = true := by
    decide
  obtain ⟨w, hw, -, hreads⟩ := restore_export oneQueue ⟨by decide, by decide⟩
    oneMegabyte oneMegabyte modernDriver t ht hr (softSource 1)
    (fun i => ((t.vs.queues i).lastAvailIdx, (t.vs.queues i).shadowUsedIdx))
    (fun i _ => rfl) softDest rfl (fun _ _ _ => rfl)
  have hexp : @exportMigrateQueues 1 t (softSource 1) = .ok w := hw
  rw [hexp] at hok
  cases hd : (Transport.new oneQueue oneMegabyte).restoreMigrateQueues
      softDest w with
  | error e =>
    have herr : ((Except.ok w).bind ((Transport.new oneQueue
        oneMegabyte).restoreMigrateQueues softDest)) = .error e := hd
    rw [herr] at hok
    cases hok
  | ok d => exact ⟨t, d, w, ht, hc, hw, hd, hreads d hd⟩

end Transport

/-- A device with two queues. -/
def twoQueues : Shape := ⟨2, 8, fRingEventIdx, none⟩

namespace Transport

/-- A driver that has selected its second queue and is carried over before
its next write finds the first queue selected. -/
theorem selectors_not_carried :
    ∃ t d : Transport 2, ∃ w,
      Conc.run (step fRingEventIdx) (.new twoQueues oneMegabyte)
        [.modern 0x16 1 fun _ => ⟨0, 0, false⟩] = some t ∧
      t.exportMigrateQueues (softSource 2) = .ok w ∧
      (Transport.new twoQueues oneMegabyte).restoreMigrateQueues softDest w
        = .ok d ∧
      t.commonRead fRingEventIdx .queueSelect = 1 ∧
      d.commonRead fRingEventIdx .queueSelect = 0 := by
  refine ⟨_, _, _, rfl, rfl, rfl, ?_, ?_⟩
  · decide
  · decide

/-- Nor is the reset latch: an export taken while a reset drains has a status
that reads 1 on the source, and 0 on the destination. -/
theorem reset_latch_not_carried : ∃ t d : Transport 1, ∃ w,
      Conc.run (step fRingEventIdx) (.new oneQueue oneMegabyte)
        [.modern 0x14 0 fun _ => ⟨0, 0, false⟩] = some t ∧
      t.vs.resetting = true ∧
      t.exportMigrateQueues (softSource 1) = .ok w ∧
      (Transport.new oneQueue oneMegabyte).restoreMigrateQueues softDest w = .ok d ∧
      t.commonRead fRingEventIdx .deviceStatus = 1 ∧
      d.commonRead fRingEventIdx .deviceStatus = 0 := by
  refine ⟨_, _, _, rfl, rfl, rfl, rfl, ?_, ?_⟩
  · decide
  · decide

end Transport

end Rshyve.Virtio.Pci
