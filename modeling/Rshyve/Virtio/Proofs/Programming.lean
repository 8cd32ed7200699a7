/-
# The cached verdict on the ring addresses

`Checked`: what the queue remembers of the address check is what the check
would say now. Setting an address or taking the rings away forgets the
verdict; setting a ring feature forgets it when the feature moves the end of
a ring. A size is taken while a verdict is kept, but only by a queue without
a descriptor table, and no check passes there whatever the size.

`verdict_fresh` adds to it what a passed check is worth: every word the queue
reaches afterwards lies inside the ranges that were checked.
-/
import Rshyve.Virtio.Pci.Drain

namespace Rshyve.Virtio.Pci

open Rshyve.Mem

namespace VirtQueue

/-- The cached verdict is the verdict, and no ring has size zero. -/
structure Checked (s : AddressSpace) (q : VirtQueue) : Prop where
  cached : ∀ ok, q.addrsOk = some ok → ok = (q.validateAddrs s).isOk
  size_ne : q.size ≠ 0
  max_ne : q.maxSize ≠ 0

-- ==== the check itself

variable {q : VirtQueue} {s : AddressSpace}

theorem validateAddrs_isOk : (q.validateAddrs s).isOk = true ↔ q.RingsIn s := by
  rw [← validateAddrs_eq_ok]
  cases q.validateAddrs s with
  | error e => simp [Except.isOk, Except.toBool]
  | ok u => simp [Except.isOk, Except.toBool]

/-- No check passes on a queue without a descriptor table. -/
theorem validateAddrs_unset (h : q.isConfigured = false) : (q.validateAddrs s).isOk = false := by
  rw [Bool.eq_false_iff]
  intro hok
  have hc := (validateAddrs_isOk.1 hok).isConfigured
  rw [h] at hc
  cases hc

theorem addrsUsable_some {ok : Bool} (h : q.addrsOk = some ok) : q.addrsUsable s = (q, ok) := by
  unfold addrsUsable
  rw [h]

theorem addrsUsable_none (h : q.addrsOk = none) :
    q.addrsUsable s = ({ q with addrsOk := some (q.validateAddrs s).isOk },
      (q.validateAddrs s).isOk) := by
  unfold addrsUsable
  rw [h]
  cases q.validateAddrs s <;> rfl

/-- Asking for the verdict caches it and changes nothing else. -/
theorem addrsUsable_eq (q : VirtQueue) (s : AddressSpace) :
    q.addrsUsable s = ({ q with addrsOk := some (q.addrsUsable s).2 }, (q.addrsUsable s).2) := by
  cases h : q.addrsOk with
  | none => rw [addrsUsable_none h]
  | some ok =>
    rw [addrsUsable_some h]
    simp only [← h]

theorem Checked.usable (h : q.Checked s) : (q.addrsUsable s).2 = (q.validateAddrs s).isOk := by
  cases hc : q.addrsOk with
  | none => rw [addrsUsable_none hc]
  | some ok => rw [addrsUsable_some hc, h.cached ok hc]

-- ==== single calls

/-- Behind the checks a pop moves at most the cursor. -/
theorem popEntry_eq (q : VirtQueue) (m : GuestMem) :
    ∃ last, (q.popEntry m).1 = { q with lastAvailIdx := last } := by
  unfold popEntry
  split
  · exact ⟨q.lastAvailIdx, rfl⟩
  split
  · exact ⟨q.lastAvailIdx, rfl⟩
  split
  · exact ⟨q.lastAvailIdx, rfl⟩
  · simp only []
    split
    · exact ⟨_, rfl⟩
    · exact ⟨_, rfl⟩

/-- A pop moves at most the cursor and caches at most the verdict. -/
theorem popAvail_eq (q : VirtQueue) (m : GuestMem) : ∃ last ok, (q.popAvail m).1
        = { q with lastAvailIdx := last, addrsOk := ok } ∧
      (ok = q.addrsOk ∨ ok = some (q.addrsUsable m.space).2) := by
  unfold popAvail
  split
  · exact ⟨q.lastAvailIdx, q.addrsOk, rfl, .inl rfl⟩
  · rw [addrsUsable_eq]
    simp only []
    split
    · exact ⟨q.lastAvailIdx, _, rfl, .inr rfl⟩
    · obtain ⟨last, hl⟩ := popEntry_eq
        { q with addrsOk := some (q.addrsUsable m.space).2 } m
      exact ⟨last, _, hl, .inr rfl⟩

theorem Checked.of_none (h : q.addrsOk = none) (hsize : q.size ≠ 0) (hmax : q.maxSize ≠ 0) :
    q.Checked s := by
  refine ⟨fun ok hok => ?_, hsize, hmax⟩
  rw [h] at hok
  cases hok

theorem Checked.setSize {q' : VirtQueue} {size : BitVec 16} (h : q.Checked s)
    (hset : q.setSize size = .ok q') :
    q'.Checked s := by
  obtain ⟨hoffered, hconf, rfl⟩ := setSize_eq_ok.1 hset
  have hne : size ≠ 0 := by
    rintro rfl
    simp [sizeOffered] at hoffered
  refine ⟨fun ok hok => ?_, hne, h.max_ne⟩
  have hold := h.cached ok hok
  rw [validateAddrs_unset hconf] at hold
  have hnew : ({ q with size := size } : VirtQueue).isConfigured = false :=
    hconf
  rw [hold, validateAddrs_unset hnew]

theorem Checked.setEventIdx (h : q.Checked s) (enabled : Bool) :
    (q.setEventIdx enabled).Checked s := by
  by_cases he : q.eventIdx = enabled
  · have hq : q.setEventIdx enabled = q := by
      unfold VirtQueue.setEventIdx
      rw [he, if_neg (by simp), ← he]
    rwa [hq]
  · refine .of_none ?_ h.size_ne h.max_ne
    unfold VirtQueue.setEventIdx
    simp [he]

theorem Checked.popAvail (h : q.Checked s) {m : GuestMem} (hm : m.space = s) :
    (q.popAvail m).1.Checked s := by
  obtain ⟨last, ok, hq, hok⟩ := popAvail_eq q m
  rw [hq]
  refine ⟨fun ok' hok' => ?_, h.size_ne, h.max_ne⟩
  have hok' : ok = some ok' := hok'
  show ok' = (q.validateAddrs s).isOk
  rcases hok with rfl | rfl
  · exact h.cached ok' hok'
  · cases hok'
    rw [hm, h.usable]

theorem Checked.perform (h : q.Checked s) (op : RingOp) : (q.perform s op).Checked s := by
  cases op with
  | size size =>
    cases hset : q.setSize size with
    | ok q' =>
      simp only [VirtQueue.perform, hset]
      exact h.setSize hset
    | error e =>
      simp only [VirtQueue.perform, hset]
      exact h
  | legacy pfn =>
    have hnone : (q.setAddrLegacy pfn).addrsOk = none := by
      unfold setAddrLegacy
      split <;> rfl
    refine .of_none hnone ?_ ?_
    · simpa only [VirtQueue.perform, setAddrLegacy_size] using h.size_ne
    · simpa only [VirtQueue.perform, setAddrLegacy_maxSize] using h.max_ne
  | modern desc avail used => exact .of_none rfl h.size_ne h.max_ne
  | eventIdx enabled => exact h.setEventIdx enabled
  | indirect supported => exact ⟨h.cached, h.size_ne, h.max_ne⟩
  | cursors lastAvail shadowUsed =>
    exact ⟨h.cached, h.size_ne, h.max_ne⟩
  | reset => exact .of_none rfl h.max_ne h.max_ne
  | pop bytes => exact h.popAvail rfl

-- ==== sequences

theorem Checked.programming (h : q.Checked s) (ops : List RingOp) :
    (q.programming s ops).Checked s := by
  induction ops generalizing q with
  | nil => exact h
  | cons op ops ih => exact ih (h.perform op)

theorem checked_new {size : BitVec 16} (h : isPowerOfTwo size = true) :
    (VirtQueue.new size).Checked s := by
  have hne : size ≠ 0 := by
    rintro rfl
    simp [isPowerOfTwo] at h
  exact .of_none rfl hne hne

/-- After any sequence of calls on a new queue over a fixed memory map, the
verdict the queue has cached, and the one it acts on, are those of a fresh
check; and where the check passes, every word the queue reaches lies inside
the ranges checked, with no address overflowing on the way to it. -/
theorem verdict_fresh (s : AddressSpace) (size : BitVec 16)
    (hsize : isPowerOfTwo size = true) (ops : List RingOp) :
    let q := (VirtQueue.new size).programming s ops
    (∀ ok, q.addrsOk = some ok → ok = (q.validateAddrs s).isOk) ∧
      (q.addrsUsable s).2 = (q.validateAddrs s).isOk ∧
      ((q.validateAddrs s).isOk = true →
        ∀ a : Access, a.made q = true → a.InRange q) := by
  have h : ((VirtQueue.new size).programming s ops).Checked s :=
    (checked_new hsize).programming ops
  refine ⟨h.cached, h.usable, fun hok a hmade => ?_⟩
  exact Access.in_range (validateAddrs_isOk.1 hok) h.size_ne hmade

/-- A modern driver's calls: a smaller ring, its addresses, EVENT_IDX, and a
first look at the available ring. -/
def modernCalls : List RingOp :=
  [.size 8, .modern 0x1000 0x2000 0x3000, .eventIdx true, .pop fun _ => 0]

theorem verdict_fresh_modern :
    let s := AddressSpace.newAnon 0 0x10000
    let q := (VirtQueue.new 128).programming s modernCalls
    q.addrsOk = some true ∧ (q.validateAddrs s).isOk = true ∧
      Access.InRange q .availEvent := by
  have hcached : ((VirtQueue.new 128).programming
      (.newAnon 0 0x10000) modernCalls).addrsOk = some true := by
    decide
  have h := verdict_fresh (.newAnon 0 0x10000) 128 (by decide) modernCalls
  have hok := (h.1 true hcached).symm
  exact ⟨hcached, hok, h.2.2 hok .availEvent (by decide)⟩

end VirtQueue

end Rshyve.Virtio.Pci
