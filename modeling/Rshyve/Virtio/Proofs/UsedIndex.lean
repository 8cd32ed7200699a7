/-
# Which used index an export carries

`Settled`: a zero in the used ring is also the shadow's. Each event keeps it
under `keepsZero`, so every history does (`settled_run`), and in a settled
state the fallback of the export returns what memory holds.

The handler enters only through `ring`: it writes the ring the queue has, or
the queue has none. Without that a batch could zero another ring's index.
-/
import Rshyve.Virtio.Proofs.PciMigrate
import Rshyve.Virtio.UsedIndex

namespace Rshyve.Virtio.Pci

open Rshyve.Mem

variable {entries : List (BitVec 16 × BitVec 32)}

namespace SoftQueue

/-- Memory's zero is the shadow's zero, and the handler is the ring's. -/
structure Settled (s : SoftQueue) : Prop where
  zero : s.q.usedIndex s.mem = some 0 → s.q.shadowUsedIdx = 0
  ring : ∀ c, s.handler = some c → s.q.usedAddr = 0 ∨ c.usedAddr = s.q.usedAddr

-- ==== rings and addresses

/-- What a batch leaves in the used ring: nothing new, or where the handler
stands after it. -/
theorem ringIndex_writeEntries (c : VirtioCompletion) (m : GuestMem) (hne : entries ≠ []) :
    ringIndex (c.writeEntries m entries).2 c.usedAddr =
      if canStore m.space (usedIdxGpa c.usedAddr).toNat 2 2 then
        (ringIndex m c.usedAddr).map fun _ =>
          c.writeIdx + BitVec.ofNat 16 entries.length
      else ringIndex m c.usedAddr := by
  unfold ringIndex
  by_cases hz : c.usedAddr = 0
  · simp [hz]
  · rw [if_neg hz, if_neg hz, readWord_writeEntries entries c m hne]

@[simp] theorem writeEntries_usedAddr (c : VirtioCompletion) (m : GuestMem)
    (entries : List (BitVec 16 × BitVec 32)) :
    (c.writeEntries m entries).1.usedAddr = c.usedAddr := by
  rw [writeEntries_fst]

variable {s : SoftQueue}

variable {s' : SoftQueue}

/-- Setting ring features moves neither a cursor nor an address. -/
theorem Settled.of_same (h : s.Settled) (hq : s'.q.usedAddr = s.q.usedAddr)
    (hshadow : s'.q.shadowUsedIdx = s.q.shadowUsedIdx) (hmem : s'.mem = s.mem)
    (hh : s'.handler = s.handler) : s'.Settled := by
  constructor
  · intro hz
    unfold VirtQueue.usedIndex at hz
    rw [hq, hmem] at hz
    rw [hshadow]
    exact h.zero hz
  · intro c hc
    rw [hq]
    exact h.ring c (hh ▸ hc)

-- ==== one event

theorem Settled.programmed {q : VirtQueue} (hz : q.usedIndex s.mem = some 0 → q.shadowUsedIdx = 0) :
    (s.programmed q).Settled := by
  unfold SoftQueue.programmed
  split
  · exact ⟨fun h => (nomatch h), fun _ _ => .inl rfl⟩
  · exact ⟨hz, fun _ h => (nomatch h)⟩

theorem Settled.memory (h : s.Settled) {mem : GuestMem} (hok : s.keepsZero (.memory mem) = true) :
    ({ s with mem := mem } : SoftQueue).Settled := by
  refine ⟨fun hz => ?_, h.ring⟩
  simpa [keepsZero, hz] using hok

theorem setAddrLegacy_shadowUsedIdx (q : VirtQueue) {pfn : BitVec 32} (h : pfn ≠ 0) :
    (q.setAddrLegacy pfn).shadowUsedIdx = q.shadowUsedIdx := by
  unfold VirtQueue.setAddrLegacy
  rw [if_neg h]

theorem Settled.pfn {pfn : BitVec 32} (hok : s.keepsZero (.pfn pfn) = true) (hne : pfn ≠ 0) :
    (s.programmed (s.q.setAddrLegacy pfn)).Settled := by
  apply Settled.programmed
  intro hz
  rw [setAddrLegacy_shadowUsedIdx _ hne]
  simpa [keepsZero, hz] using hok

variable {qs : VirtioMigrateQueue}

theorem Settled.restored (hok : s.keepsZero (.restore qs) = true) (hs : s.restored qs = some s') :
    s'.Settled := by
  unfold SoftQueue.restored at hs
  split at hs
  · rename_i hnone _
    cases hs
    constructor
    · intro hz
      have hz : ringIndex s.mem qs.usedAddr = some 0 := hz
      show qs.usedIdx = 0
      simpa [keepsZero, hz] using hok
    · intro c hc
      rw [hnone] at hc
      cases hc
  · cases hs

theorem Settled.complete (h : s.Settled) {c : VirtioCompletion}
    (hc : s.handler = some c) (hok : s.keepsZero (.complete entries) = true) :
    ({ s with
        mem := (c.writeEntries s.mem entries).2
        handler := some (c.writeEntries s.mem entries).1 } :
      SoftQueue).Settled := by
  constructor
  · intro hz
    have hz : ringIndex (c.writeEntries s.mem entries).2 s.q.usedAddr = some 0 := hz
    by_cases hne : entries = []
    · subst hne
      exact h.zero hz
    · rcases h.ring c hc with haddr | haddr
      · rw [haddr] at hz
        cases hz
      · rw [← haddr, ringIndex_writeEntries c s.mem hne] at hz
        split at hz
        · -- the index is the handler's, so the guard says it is not zero
          obtain ⟨-, -, hzero⟩ := Option.map_eq_some_iff.1 hz
          simpa [keepsZero, hc, hne, hzero] using hok
        · rw [haddr] at hz
          exact h.zero hz
  · intro c' hc'
    cases hc'
    rw [writeEntries_usedAddr]
    exact h.ring c hc

theorem Settled.push (h : s.Settled) {descIdx : BitVec 16} {len : BitVec 32}
    (hok : s.keepsZero (.push descIdx len) = true) :
    ({ s with
        q := (s.q.pushUsed s.mem descIdx len).1
        mem := (s.q.pushUsed s.mem descIdx len).2 } : SoftQueue).Settled := by
  refine ⟨fun hz => ?_, h.ring⟩
  show s.q.shadowUsedIdx + 1 = 0
  have hz : ringIndex (writeUsed s.mem s.q.usedAddr s.q.size
      s.q.shadowUsedIdx descIdx len) s.q.usedAddr = some 0 := hz
  unfold ringIndex at hz
  split at hz
  · cases hz
  · rename_i haddr
    rw [readWord_writeUsed] at hz
    split at hz
    · obtain ⟨-, -, hzero⟩ := Option.map_eq_some_iff.1 hz
      exact hzero
    · rename_i hlands
      have hidx : s.q.usedIndex s.mem = some 0 := by
        unfold VirtQueue.usedIndex ringIndex
        rw [if_neg haddr, hz]
      simpa [keepsZero, hlands, hidx] using hok

theorem settled_step {async : Bool} {e : QueueEvent}
    (h : s.Settled) (hs : Conc.guarded keepsZero (step async) s e = some s') :
    s'.Settled := by
  obtain ⟨hok, hs⟩ := Conc.guarded_eq_some.1 hs
  cases e with
  | memory mem =>
    cases hs
    exact h.memory hok
  | features eventIdx indirect =>
    cases hs
    exact h.of_same rfl rfl rfl rfl
  | size size =>
    simp only [step] at hs
    split at hs
    · cases hs
      exact h
    · rename_i q hq
      obtain ⟨-, -, rfl⟩ := VirtQueue.setSize_eq_ok.1 hq
      cases hs
      exact h.of_same rfl rfl rfl rfl
  | pfn pfn =>
    simp only [step] at hs
    split at hs
    · rename_i hp
      subst hp
      cases hs
      exact ⟨fun hz => (nomatch hz), fun _ hc => (nomatch hc)⟩
    · rename_i hp
      cases hs
      exact .pfn hok hp
  | enable desc avail used =>
    cases hs
    exact .programmed fun _ => rfl
  | reset =>
    cases hs
    exact ⟨fun hz => (nomatch hz), fun _ hc => (nomatch hc)⟩
  | restore qs => exact .restored hok hs
  | kick lastAvail =>
    cases hs
    -- a drain keeps the shadow it is given, and every address
    refine h.of_same ?_ ?_ rfl rfl
    · obtain ⟨_, _, _, hq⟩ := VirtQueue.drained_eq s.q s.mem.space
        ⟨lastAvail, s.q.shadowUsedIdx, true⟩
      simp only [hq]
    · simp only [VirtQueue.drained]
      split
      · rfl
      · split <;> rfl
  | attach =>
    simp only [step] at hs
    split at hs
    · cases hs
      refine ⟨h.zero, fun c hc => ?_⟩
      cases hc
      exact .inr rfl
    · cases hs
  | complete entries =>
    simp only [step] at hs
    split at hs
    · cases hs
    · rename_i c hc
      cases hs
      exact h.complete hc hok
  | push descIdx len =>
    simp only [step] at hs
    split at hs
    · cases hs
    · cases hs
      exact h.push hok

theorem settled_new (size : BitVec 16) (mem : GuestMem) : (SoftQueue.new size mem).Settled :=
  ⟨fun hz => (nomatch hz), fun _ hc => (nomatch hc)⟩

theorem settled_run {async : Bool} {size : BitVec 16} {mem : GuestMem} {es : List QueueEvent}
    (hrun : Conc.run (Conc.guarded keepsZero (step async)) (.new size mem) es = some s) :
    s.Settled :=
  Conc.run_inv (fun _ _ _ hs hstep => settled_step hs hstep) hrun (settled_new size mem)

-- ==== the export

/-- The pair an export of a software queue takes. -/
theorem cursors_source {n : Nat} (t : Transport n) (mem : GuestMem) (idx : Fin n) :
    t.cursors (source n mem) idx = .ok ((t.vs.queues idx).lastAvailIdx,
      if (t.vs.queues idx).readUsedRingIdx mem ≠ 0 then
        (t.vs.queues idx).readUsedRingIdx mem
      else (t.vs.queues idx).shadowUsedIdx) := rfl

/-- In a settled state the fallback is what memory holds. -/
theorem Settled.export (h : s.Settled) {i : BitVec 16} (hi : s.q.usedIndex s.mem = some i) :
    (if s.q.readUsedRingIdx s.mem ≠ 0 then s.q.readUsedRingIdx s.mem
      else s.q.shadowUsedIdx) = i := by
  have hread : s.q.readUsedRingIdx s.mem = i := by
    unfold VirtQueue.readUsedRingIdx
    rw [hi]
    rfl
  rw [hread]
  by_cases hz : i = 0
  · subst hz
    rw [if_neg (by simp)]
    exact h.zero hi
  · rw [if_pos hz]

/-- In every history whose events keep zeroes apart, the next export of the
device carries, for this queue, the index its used ring holds. -/
theorem export_usedIdx (async : Bool) (size : BitVec 16) (mem : GuestMem)
    (es : List QueueEvent) (s : SoftQueue)
    (hrun : Conc.run (Conc.guarded keepsZero (step async))
      (.new size mem) es = some s)
    {n : Nat} (hn : n < 2 ^ 16) (t : Transport n) (idx : Fin n)
    (hq : t.vs.queues idx = s.q) :
    ∃ w, t.exportMigrateQueues (source n s.mem) = .ok w ∧
      ∀ qs ∈ w.queues, qs.queueIdx.toNat = idx →
        ∀ i, s.q.usedIndex s.mem = some i → qs.usedIdx = i := by
  refine ⟨_, Transport.export_eq fun i _ => cursors_source t s.mem i, ?_⟩
  intro qs hqs hidx i hi
  obtain ⟨j, -, rfl⟩ := List.mem_map.1 hqs
  have hj : j = idx := by
    have hlt : (j : Nat) < 2 ^ 16 := Nat.lt_trans j.isLt hn
    have hval : (BitVec.ofNat 16 (j : Nat)).toNat = idx := hidx
    rw [BitVec.toNat_ofNat, Nat.mod_eq_of_lt hlt] at hval
    exact Fin.ext hval
  subst hj
  show (if (t.vs.queues j).readUsedRingIdx s.mem ≠ 0 then
      (t.vs.queues j).readUsedRingIdx s.mem
    else (t.vs.queues j).shadowUsedIdx) = i
  rw [hq]
  exact (settled_run hrun).export hi

-- ==== a wrapped index

/-- One megabyte of RAM in which every byte is `b`. -/
def filled (b : UInt8) : GuestMem := ⟨oneMegabyte, fun _ => b⟩

/-- A queue on the wire, with its used index at `used`. -/
def carried (used : BitVec 16) : VirtioMigrateQueue :=
  ⟨0, 8, 0x1000, 0x2000, 0x3000, true, used, used, msiNoVector⟩

/-- A one-queue device whose queue is `q`. -/
def holding (q : VirtQueue) : Transport 1 :=
  let t := Transport.new oneQueue oneMegabyte
  { t with vs := { t.vs with queues := fun _ => q } }

/-- A queue restored at `used`, with a handler and one completion. -/
def restoredOnce (used : BitVec 16) : List QueueEvent :=
  [.restore (carried used), .attach, .complete [(0, 512)]]

/-- A queue restored at 0x0101 completes one request: both say 0x0102. -/
theorem export_usedIdx_restored :
    ∃ s, ∃ w, Conc.run (Conc.guarded keepsZero (step true))
        (.new 8 (filled 1)) (restoredOnce 0x0101) = some s ∧
      s.q.usedIndex s.mem = some 0x0102 ∧
      (holding s.q).exportMigrateQueues (source 1 s.mem) = .ok w ∧
      w.queues.length = 1 ∧
      ∀ qs ∈ w.queues, qs.queueIdx.toNat = 0 → qs.usedIdx = 0x0102 := by
  obtain ⟨s, hs, hidx, hlen⟩ : ∃ s, Conc.run (Conc.guarded keepsZero
      (step true)) (.new 8 (filled 1)) (restoredOnce 0x0101) = some s ∧
      s.q.usedIndex s.mem = some 0x0102 ∧
      ((holding s.q).exportMigrateQueues (source 1 s.mem)).toOption.map
        (·.queues.length) = some 1 := by
    decide
  obtain ⟨w, hw, hall⟩ := export_usedIdx true 8 (filled 1)
    (restoredOnce 0x0101) s hs (by decide) (holding s.q) 0 rfl
  rw [hw] at hlen
  exact ⟨s, w, hs, hidx, hw, Option.some.inj hlen,
    fun qs hqs h0 => hall qs hqs h0 _ hidx⟩

/-- A queue restored at 0xffff whose handler completes one request: the
index in memory wraps to zero, the export carries 0xffff. -/
theorem wrapped_index_not_exported :
    ∃ s, ∃ w, Conc.run (step true) (.new 8 (filled 0xff))
        (restoredOnce 0xffff) = some s ∧
      s.q.usedIndex s.mem = some 0 ∧
      (holding s.q).exportMigrateQueues (source 1 s.mem) = .ok w ∧
      w.queues.map (·.usedIdx) = [0xffff] := by
  refine ⟨_, _, rfl, ?_, rfl, ?_⟩
  · decide
  · decide

end SoftQueue

end Rshyve.Virtio.Pci
