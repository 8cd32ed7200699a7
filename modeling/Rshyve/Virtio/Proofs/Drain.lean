/-
# What a drain hands out, and what it writes

Two results about `drain_avail`.

A queue without rings, or with rings that were refused, hands out nothing.
Whether it stores anything depends on the arm at the end of the pass, which
asks for neither (`refused_drain_silent`).

A usable queue hands out the heads the driver offers, in order
(`drain_hands`). The proof reads a drain as a walk along the list of entries
from the cursor to the driver's index (`offered`): `passHeads` is what one
pass does to that list, `takeHeads_spec` ties it to the loop, and
`drainLoop_spec` is the induction over passes. Each pass that does not stop
consumes an entry, so the length of the list is fuel enough.

# Where the two modes differ

A pop that meets an entry naming no descriptor takes it and ends the pass.
With EVENT_IDX the outer loop looks at the ring again and goes on behind it.
Without, it never does, so the heads behind such an entry stay where they
are.
-/
import Rshyve.Virtio.Proofs.Programming

namespace Rshyve.Virtio.Pci

open Rshyve.Mem

variable {m : GuestMem} {ok : Option Bool}

namespace VirtQueue

-- ==== refused queues

/-- A queue whose rings the device works with. -/
def Usable (q : VirtQueue) (s : AddressSpace) : Prop :=
  q.isConfigured = true ∧ (q.addrsUsable s).2 = true

instance (q : VirtQueue) (s : AddressSpace) : Decidable (q.Usable s) :=
  inferInstanceAs (Decidable (_ ∧ _))

variable {q : VirtQueue}

/-- A queue that is not usable pops nothing, and only remembers why. -/
theorem popAvail_refused (h : ¬ q.Usable m.space) :
    ∃ ok, q.popAvail m = ({ q with addrsOk := ok }, none) := by
  unfold popAvail
  cases hc : q.isConfigured with
  | false => exact ⟨q.addrsOk, rfl⟩
  | true =>
    have hu : (q.addrsUsable m.space).2 = false := by
      rw [Bool.eq_false_iff]
      exact fun hu => h ⟨hc, hu⟩
    rw [addrsUsable_eq, hu]
    exact ⟨some false, rfl⟩

theorem takeHeads_refused (each : Callback) (left : Nat)
    (h : ¬ q.Usable m.space) :
    ∃ ok, takeHeads each left ⟨q, m, [], []⟩ =
      ⟨{ q with addrsOk := ok }, m, [], []⟩ := by
  cases left with
  | zero => exact ⟨q.addrsOk, rfl⟩
  | succ left =>
    obtain ⟨ok, hpop⟩ := popAvail_refused h
    refine ⟨ok, ?_⟩
    rw [takeHeads, hpop]

/-- A drain of a queue that is not usable takes nothing and returns after
one pass, but arms `avail_event` on its way out. -/
theorem drainAvail_refused (each : Callback) (max fuel : Nat)
    (h : ¬ q.Usable m.space) :
    ∃ ok, drainAvail (fuel + 1) q m max each =
      some ⟨{ q with addrsOk := ok }, q.updateUsedEvent m, [],
        (q.usedEventStore m.space).toList⟩ := by
  obtain ⟨ok, htake⟩ := takeHeads_refused each (max - 0) h
  have hpass : drainPass each max ⟨q, m, [], []⟩ =
      ⟨{ q with addrsOk := ok }, q.updateUsedEvent m, [],
        (q.usedEventStore m.space).toList⟩ := by
    unfold drainPass
    rw [List.length_nil, htake]
    rfl
  refine ⟨ok, ?_⟩
  unfold drainAvail
  rw [drainLoop, hpass]
  -- the cursor has not moved
  have hstop (b : Bool) (m' : GuestMem) :
      ({ q with addrsOk := ok } : VirtQueue).drainShouldStop
        q.lastAvailIdx b m' = true := by
    simp [drainShouldStop]
  simp only [hstop, if_true]

/-- The arm stores nothing exactly if there is no `avail_event` word, or
none the device can store to. -/
theorem usedEventStore_eq_none {s : AddressSpace} :
    q.usedEventStore s = none ↔ q.eventIdx = false ∨
      canStore s (availEventGpa q.usedAddr q.size).toNat 2 2 = false := by
  unfold usedEventStore
  dsimp only
  cases q.eventIdx <;> simp

/-- And then memory is as it was. -/
theorem updateUsedEvent_eq_self (h : q.usedEventStore m.space = none) :
    q.updateUsedEvent m = m := by
  unfold updateUsedEvent
  rcases usedEventStore_eq_none.mp h with he | hs
  · rw [he]
    rfl
  · split
    · rfl
    · unfold storeWord GuestMem.store
      rw [Bytes.le_length, hs]
      rfl

/-- A drain of a queue that is unconfigured or refused returns and pops
nothing. It makes no store, exactly if the queue has no `avail_event` word or
none the device can store to, and memory is then as it was. -/
theorem refused_drain_silent (q : VirtQueue) (m : GuestMem) (max : Nat)
    (each : Callback) (fuel : Nat) (hq : ¬ q.Usable m.space) :
    ∃ d, drainAvail (fuel + 1) q m max each = some d ∧ d.heads = [] ∧
      (d.stores = [] ↔ q.eventIdx = false ∨
        canStore m.space (availEventGpa q.usedAddr q.size).toNat 2 2 =
          false) ∧
      (d.stores = [] → d.mem = m) := by
  obtain ⟨ok, hd⟩ := drainAvail_refused each max fuel hq
  have hnone : (q.usedEventStore m.space).toList = [] ↔
      q.usedEventStore m.space = none := by
    cases q.usedEventStore m.space <;> simp
  refine ⟨_, hd, rfl, hnone.trans usedEventStore_eq_none, fun h => ?_⟩
  exact updateUsedEvent_eq_self (hnone.mp h)

/-- RAM from address zero on, with one byte everywhere. -/
def ramOf (b : UInt8) : GuestMem := ⟨.newAnon 0 0x10000, fun _ => b⟩

/-- A queue of four with its descriptor table off its boundary. -/
def misplaced (eventIdx : Bool) : VirtQueue :=
  ((VirtQueue.new 4).setAddrModern 0x1008 0x2000 0x3000).setEventIdx eventIdx

/-- A callback that does nothing. -/
def idle : Callback := fun q m _ => (q, m)

theorem refused_drain_silent_misplaced :
    ∃ d, drainAvail 1 (misplaced false) (ramOf 0xff) 4 idle = some d ∧
      d.heads = [] ∧ d.stores = [] ∧ d.mem = ramOf 0xff := by
  obtain ⟨d, hd, hheads, hstores, hmem⟩ :=
    refused_drain_silent (misplaced false) (ramOf 0xff) 4 idle 0 (by decide)
  have hnone := hstores.mpr (.inl rfl)
  exact ⟨d, hd, hheads, hnone, hmem hnone⟩

/-- With EVENT_IDX a refused queue is written to, behind the used ring the
driver named. -/
theorem refused_drain_writes :
    ¬ (misplaced true).Usable (ramOf 0xff).space ∧
      (drainAvail 1 (misplaced true) (ramOf 0xff) 4 idle).any (fun d =>
        d.stores == [(0x3024, 0)] &&
          peek d.mem.bytes 0x3024 2 == [0, 0]) = true := by
  decide

-- ==== the list of entries

/-- The entries from the cursor `c` up to the driver's index. -/
def entriesFrom (entry : BitVec 16 → BitVec 16) (idx c : BitVec 16) : List (BitVec 16) :=
  (List.range (idx - c).toNat).map fun i => entry (c + BitVec.ofNat 16 i)

theorem entriesFrom_self (entry : BitVec 16 → BitVec 16) (idx : BitVec 16) :
    entriesFrom entry idx idx = [] := by
  simp [entriesFrom]

variable {idx c : BitVec 16}

/-- A cursor that has not reached the index stands at an entry. -/
theorem entriesFrom_cons (entry : BitVec 16 → BitVec 16) (h : c ≠ idx) :
    entriesFrom entry idx c = entry c :: entriesFrom entry idx (c + 1) := by
  have hlen : (idx - c).toNat = (idx - (c + 1)).toNat + 1 := by
    have hne : c.toNat ≠ idx.toNat := fun he => h (BitVec.eq_of_toNat_eq he)
    have h₁ := c.isLt
    have h₂ := idx.isLt
    simp only [BitVec.toNat_sub, BitVec.toNat_add, BitVec.reduceToNat]
    omega
  unfold entriesFrom
  rw [hlen, List.range_succ_eq_map, List.map_cons, List.map_map]
  congr 1
  · simp
  · refine List.map_congr_left fun i _ => ?_
    show entry (c + BitVec.ofNat 16 (i + 1)) = _
    rw [BitVec.ofNat_add, BitVec.add_comm (BitVec.ofNat 16 i), ← BitVec.add_assoc]
    rfl

theorem entriesFrom_length (entry : BitVec 16 → BitVec 16)
    (idx c : BitVec 16) : (entriesFrom entry idx c).length < 2 ^ 16 := by
  unfold entriesFrom
  rw [List.length_map, List.length_range]
  exact (idx - c).isLt

theorem entriesFrom_eq_nil {entry : BitVec 16 → BitVec 16} : entriesFrom entry idx c =
    [] ↔ c = idx := by
  constructor
  · intro h
    by_contra hne
    rw [entriesFrom_cons entry hne] at h
    cases h
  · rintro rfl
    exact entriesFrom_self entry c

/-- What one pass with `left` heads to the cap makes of the entries before
it: the heads it hands out, and the entries it leaves. -/
def passHeads (size : BitVec 16) : Nat → List (BitVec 16) → List (BitVec 16) × List (BitVec 16)
  | 0, es => ([], es)
  | _ + 1, [] => ([], [])
  | left + 1, e :: es =>
    if e < size then
      (e :: (passHeads size left es).1, (passHeads size left es).2)
    else ([], es)

section

variable {size : BitVec 16} {left : Nat} {es : List (BitVec 16)}

/-- The heads of a pass, and after them the heads among what it leaves, are
the heads there were. -/
theorem passHeads_take (size : BitVec 16) (left : Nat) (es : List (BitVec 16)) :
    (es.filter (· < size)).take left = (passHeads size left es).1 ++
      ((passHeads size left es).2.filter (· < size)).take
        (left - (passHeads size left es).1.length) := by
  induction es generalizing left with
  | nil => cases left <;> simp [passHeads]
  | cons e es ih =>
    cases left with
    | zero => simp [passHeads]
    | succ left =>
      by_cases he : e < size
      · simp only [passHeads, he, if_true, List.filter_cons, decide_true,
          List.take_succ_cons, List.cons_append, List.length_cons,
          Nat.add_sub_add_right]
        rw [← ih]
      · simp [passHeads, he]

/-- A pass with room for a head consumes an entry if there is one. -/
theorem passHeads_length_snd (size : BitVec 16) (left : Nat) (es : List (BitVec 16)) :
    (passHeads size left es).2.length ≤ es.length ∧ ((passHeads size left es).2.length = es.length →
        left = 0 ∨ es = []) := by
  induction es generalizing left with
  | nil => cases left <;> simp [passHeads]
  | cons e es ih =>
    cases left with
    | zero => simp [passHeads]
    | succ left =>
      have hle := (ih left).1
      by_cases he : e < size
      · simp only [passHeads, he, if_true, List.length_cons]
        refine ⟨by omega, fun h => ?_⟩
        omega
      · simp [passHeads, he]

/-- Entries that name a descriptor come before those that do not, as far as
a drain of at most `max` heads looks. -/
def Sorted (size : BitVec 16) (max : Nat) (es : List (BitVec 16)) : Prop :=
  ∀ i j e e', i < j → es[i]? = some e → es[j]? = some e' → ¬ e < size → e' < size → max ≤ i

/-- Then, and only then, one pass is enough. -/
theorem passHeads_eq_iff :
    (passHeads size left es).1 = (es.filter (· < size)).take left ↔
      Sorted size left es := by
  induction es generalizing left with
  | nil => cases left <;> simp [passHeads, Sorted]
  | cons e es ih =>
    cases left with
    | zero => simp [passHeads, Sorted]
    | succ left =>
      by_cases he : e < size
      · simp only [passHeads, he, if_true, List.filter_cons, decide_true,
          List.take_succ_cons, List.cons.injEq, true_and]
        rw [ih]
        constructor
        · intro h i j a b hij ha hb hna hb'
          obtain ⟨j, rfl⟩ : ∃ k, j = k + 1 := ⟨j - 1, by omega⟩
          cases i with
          | zero =>
            cases ha
            exact absurd he hna
          | succ i =>
            have := h i j a b (by omega) ha hb hna hb'
            omega
        · intro h i j a b hij ha hb hna hb'
          have := h (i + 1) (j + 1) a b (by omega) ha hb hna hb'
          omega
      · -- the pass ends here, so no head may come after
        have hpass : (passHeads size (left + 1) (e :: es)).1 = [] := by
          simp [passHeads, he]
        have hfilter : (e :: es).filter (· < size) =
            es.filter (· < size) := by
          simp [he]
        rw [hpass, hfilter, eq_comm, List.take_eq_nil_iff,
          or_iff_right (Nat.succ_ne_zero left), List.filter_eq_nil_iff]
        constructor
        · intro h i j a b hij ha hb hna hb'
          obtain ⟨j, rfl⟩ : ∃ k, j = k + 1 := ⟨j - 1, by omega⟩
          exact absurd (decide_eq_true hb')
            (h b (List.mem_of_getElem? (show es[j]? = some b from hb)))
        · intro h a ha hlt
          obtain ⟨j, hj⟩ := List.getElem?_of_mem ha
          have := h 0 (j + 1) e a (by omega) rfl hj he
            (of_decide_eq_true hlt)
          omega

end

-- ==== memory that holds

/-- Memory with the map `s` whose available ring reads `idx` and, at each
cursor, `entry`. -/
structure Holds (q : VirtQueue) (s : AddressSpace) (idx : BitVec 16)
    (entry : BitVec 16 → BitVec 16) (m : GuestMem) : Prop where
  space : m.space = s
  index : readWord m (availIdxGpa q.availAddr).toNat = some idx
  entries : ∀ c, readWord m (availEntryGpa q.availAddr q.size c).toNat = some (entry c)

/-- The available ring of a usable queue reads `idx` and `entry`, and nothing
that happens during a drain changes that: not the callback, which leaves the
queue its rings and its cursor, and not the device's own store of
`avail_event`. -/
structure Steady (q : VirtQueue) (each : Callback) (m : GuestMem)
    (idx : BitVec 16) (entry : BitVec 16 → BitVec 16) : Prop where
  held : q.Usable m.space → q.Holds m.space idx entry m
  calls : ∀ q' m' head, q.Holds m.space idx entry m' → q.Holds m.space idx entry (each q' m' head).2
  queue : ∀ q' m' head, ∃ used, (each q' m' head).1 = { q' with shadowUsedIdx := used }
  arm : ∀ m' w, q.Holds m.space idx entry m' → q.Holds m.space idx entry
      (storeWord m' (availEventGpa q.usedAddr q.size).toNat w)

/-- The queue as a drain moves it on. -/
def moved (q : VirtQueue) (c used : BitVec 16) (ok : Option Bool) : VirtQueue :=
  { q with lastAvailIdx := c, shadowUsedIdx := used, addrsOk := ok }

@[simp] theorem moved_lastAvailIdx (q : VirtQueue) (c used : BitVec 16)
    (ok : Option Bool) : (q.moved c used ok).lastAvailIdx = c := rfl

/-- A verdict a drain of a usable queue can leave behind. -/
def Kept (q : VirtQueue) (ok : Option Bool) : Prop :=
  ok = q.addrsOk ∨ ok = some true

theorem addrsUsable_moved {s : AddressSpace} (hu : q.Usable s)
    {used : BitVec 16} (hok : q.Kept ok) :
    (q.moved c used ok).addrsUsable s = (q.moved c used (some true), true) := by
  rcases hok with rfl | rfl
  · have hv := hu.2
    cases hc : q.addrsOk with
    | none =>
      rw [addrsUsable_none hc] at hv
      have hval : ((q.moved c used none).validateAddrs s).isOk = true := hv
      rw [addrsUsable_none rfl, hval]
      rfl
    | some b =>
      rw [addrsUsable_some hc] at hv
      cases hv
      exact addrsUsable_some rfl
  · exact addrsUsable_some rfl

section

variable {q : VirtQueue} {s : AddressSpace} {idx : BitVec 16}
  {entry : BitVec 16 → BitVec 16} {each : Callback} {m₀ : GuestMem}

/-- One pop: nothing at the driver's index, else the entry at the cursor. -/
theorem popAvail_moved (hu : q.Usable s) (c used : BitVec 16) (hok : q.Kept ok)
    (hm : q.Holds s idx entry m) :
    (q.moved c used ok).popAvail m = if c = idx then (q.moved c used (some true), none)
      else (q.moved (c + 1) used (some true),
        if entry c < q.size then some (entry c) else none) := by
  have hconf : (q.moved c used ok).isConfigured = true := hu.1
  unfold popAvail
  rw [hconf, hm.space, addrsUsable_moved hu hok]
  simp only [Bool.not_true, Bool.false_eq_true, if_false]
  have hidx : readWord m (availIdxGpa
      (q.moved c used (some true)).availAddr).toNat = some idx := hm.index
  have hentry : readWord m (availEntryGpa (q.moved c used (some true)).availAddr
      (q.moved c used (some true)).size
      (q.moved c used (some true)).lastAvailIdx).toNat = some (entry c) :=
    hm.entries c
  unfold popEntry
  rw [hidx, hentry]
  simp only []
  by_cases hc : c = idx
  · rw [if_pos hc, if_pos]
    exact hc
  · rw [if_neg hc, if_neg]
    · by_cases he : entry c < q.size
      · rw [if_pos he, if_neg]
        · rfl
        · exact BitVec.not_le.2 he
      · rw [if_neg he, if_pos]
        · rfl
        · exact BitVec.not_lt.1 he
    · exact hc

variable {c used : BitVec 16} {st : List (Nat × BitVec 16)}

/-- The inner loop does to the entries what a pass does to their list. -/
theorem takeHeads_spec (hs : q.Steady each m₀ idx entry)
    (hu : q.Usable m₀.space) (left : Nat) (c used : BitVec 16)
    (hok : q.Kept ok) (hm : q.Holds m₀.space idx entry m)
    (heads : List (BitVec 16)) (st : List (Nat × BitVec 16)) :
    ∃ c' used' ok' m', takeHeads each left ⟨q.moved c used ok, m, heads, st⟩ =
        ⟨q.moved c' used' ok', m',
          heads ++ (passHeads q.size left (entriesFrom entry idx c)).1, st⟩ ∧
      q.Kept ok' ∧ q.Holds m₀.space idx entry m' ∧
      entriesFrom entry idx c' = (passHeads q.size left (entriesFrom entry idx c)).2 := by
  induction left generalizing c used ok m heads with
  | zero =>
    refine ⟨c, used, ok, m, ?_, hok, hm, rfl⟩
    rw [takeHeads, passHeads, List.append_nil]
  | succ left ih =>
    have hpop := popAvail_moved hu c used hok hm
    rw [takeHeads]
    by_cases hc : c = idx
    · rw [if_pos hc] at hpop
      refine ⟨c, used, some true, m, ?_, .inr rfl, hm, ?_⟩
      · rw [hpop, entriesFrom_eq_nil.2 hc]
        simp only [passHeads, List.append_nil]
      · rw [entriesFrom_eq_nil.2 hc, passHeads]
    · rw [if_neg hc] at hpop
      rw [entriesFrom_cons entry hc]
      by_cases he : entry c < q.size
      · rw [if_pos he] at hpop
        obtain ⟨w, hw⟩ := hs.queue (q.moved (c + 1) used (some true)) m (entry c)
        have hm' := hs.calls (q.moved (c + 1) used (some true)) m (entry c) hm
        obtain ⟨c', used', ok', m', htake, hok', hhold, hrest⟩ :=
          ih (c + 1) w (.inr rfl) hm' (heads ++ [entry c])
        refine ⟨c', used', ok', m', ?_, hok', hhold, ?_⟩
        · rw [List.append_assoc, List.singleton_append] at htake
          rw [hpop]
          simp only [hw, passHeads, he, if_true]
          exact htake
        · simp only [passHeads, he, if_true]
          exact hrest
      · rw [if_neg he] at hpop
        refine ⟨c + 1, used, some true, m, ?_, .inr rfl, hm, ?_⟩
        · rw [hpop]
          simp only [passHeads, he, if_false, List.append_nil]
        · simp only [passHeads, he, if_false]

-- ==== whole drains

theorem updateUsedEvent_moved (c used : BitVec 16) (ok : Option Bool) (m : GuestMem) :
    (q.moved c used ok).updateUsedEvent m = if q.eventIdx then
        storeWord m (availEventGpa q.usedAddr q.size).toNat c
      else m := by
  unfold updateUsedEvent
  cases he : q.eventIdx <;> simp [moved, he]

theorem drainPass_spec (hs : q.Steady each m₀ idx entry)
    (hu : q.Usable m₀.space) (max : Nat) (c used : BitVec 16)
    (hok : q.Kept ok) (hm : q.Holds m₀.space idx entry m)
    (heads : List (BitVec 16)) (st : List (Nat × BitVec 16)) :
    ∃ c' used' ok' m' st', drainPass each max
          ⟨q.moved c used ok, m, heads, st⟩ =
        ⟨q.moved c' used' ok', (q.moved c' used' ok').updateUsedEvent m',
          heads ++ (passHeads q.size (max - heads.length)
            (entriesFrom entry idx c)).1, st'⟩ ∧
      q.Kept ok' ∧ m'.space = m₀.space ∧
      q.Holds m₀.space idx entry ((q.moved c' used' ok').updateUsedEvent m') ∧
      entriesFrom entry idx c' = (passHeads q.size (max - heads.length)
        (entriesFrom entry idx c)).2 := by
  obtain ⟨c', used', ok', m', htake, hok', hm', hrest⟩ :=
    takeHeads_spec hs hu (max - heads.length) c used hok hm heads st
  refine ⟨c', used', ok', m', st ++ ((q.moved c' used' ok').usedEventStore
    m'.space).toList, ?_, hok', hm'.space, ?_, hrest⟩
  · unfold drainPass
    rw [htake]
  · rw [updateUsedEvent_moved]
    split
    · exact hs.arm m' c' hm'
    · exact hm'

/-- When a drain of a usable queue stops. -/
theorem drainShouldStop_moved (hu : q.Usable s) (c used before : BitVec 16)
    (ok : Option Bool) (cap : Bool) (hm : q.Holds s idx entry m) :
    (q.moved c used ok).drainShouldStop before cap m =
      (c == before || cap || !(q.eventIdx && idx != c)) := by
  have hconf : (q.moved c used ok).isConfigured = true := hu.1
  have hidx : readWord m (availIdxGpa (q.moved c used ok).availAddr).toNat = some idx := hm.index
  have hnew : (q.moved c used ok).hasNewAvail m = (q.eventIdx && idx != c) := by
    unfold hasNewAvail
    rw [hconf, hidx]
    cases he : q.eventIdx <;> simp [moved, he]
  unfold drainShouldStop
  rw [hnew]
  rfl

/-- What a stored `avail_event` reads, if the store lands. -/
def Published (q : VirtQueue) (s : AddressSpace) (m : GuestMem) (c : BitVec 16) : Prop :=
  canStore s (availEventGpa q.usedAddr q.size).toNat 2 2 = true →
    peek m.bytes (availEventGpa q.usedAddr q.size).toNat 2 = Bytes.le 2 c.toNat

theorem published_arm (hm : m.space = s) (c : BitVec 16) : q.Published s
      (storeWord m (availEventGpa q.usedAddr q.size).toNat c) c := by
  intro hcan
  unfold storeWord GuestMem.store
  rw [Bytes.le_length, hm, if_pos hcan]
  have h := @peek_poke_self m.bytes (availEventGpa q.usedAddr q.size).toNat (Bytes.le 2 c.toNat)
  rwa [Bytes.le_length] at h

/-- With EVENT_IDX, by induction on the fuel: the drain ends with all the
heads among the entries ahead, up to the cap. -/
theorem drainLoop_event (hs : q.Steady each m₀ idx entry)
    (hu : q.Usable m₀.space) (hev : q.eventIdx = true) (max fuel : Nat) (hok : q.Kept ok)
    (hm : q.Holds m₀.space idx entry m)
    (heads : List (BitVec 16)) (hfuel : (entriesFrom entry idx c).length < fuel) :
    ∃ d, drainLoop each max fuel ⟨q.moved c used ok, m, heads, st⟩ = some d ∧
      d.heads = heads ++ ((entriesFrom entry idx c).filter
        (· < q.size)).take (max - heads.length) ∧
      q.Published m₀.space d.mem d.q.lastAvailIdx := by
  induction fuel generalizing c used ok m heads st with
  | zero => exact absurd hfuel (Nat.not_lt_zero _)
  | succ fuel ih =>
    obtain ⟨c', used', ok', m', st', hpass, hok', hspace, hm', hrest⟩ :=
      drainPass_spec hs hu max c used hok hm heads st
    have htake := passHeads_take q.size (max - heads.length) (entriesFrom entry idx c)
    have hsnd := passHeads_length_snd q.size (max - heads.length) (entriesFrom entry idx c)
    rw [← hrest] at htake hsnd
    generalize (passHeads q.size (max - heads.length)
      (entriesFrom entry idx c)).1 = taken at hpass htake
    rw [drainLoop, hpass]
    simp only [drainShouldStop_moved hu _ _ _ _ _ hm', hev, Bool.true_and, moved_lastAvailIdx]
    by_cases hstop : (c' == c || decide ((heads ++ taken).length ≥ max)
        || !(idx != c')) = true
    · have hheads : ((entriesFrom entry idx c').filter (· < q.size)).take
          (max - heads.length - taken.length) = [] := by
        simp only [Bool.or_eq_true, beq_iff_eq, decide_eq_true_eq,
          List.length_append, Bool.not_eq_true', bne_eq_false_iff_eq]
          at hstop
        rcases hstop with (hc | hcap) | hidx
        · rcases hsnd.2 (by rw [hc]) with hleft | hnil
          · rw [hleft, Nat.zero_sub, List.take_zero]
          · rw [hc, hnil, List.filter_nil, List.take_nil]
        · rw [show max - heads.length - taken.length = 0 by omega, List.take_zero]
        · rw [entriesFrom_eq_nil.2 hidx.symm, List.filter_nil, List.take_nil]
      rw [hheads, List.append_nil] at htake
      rw [if_pos hstop, htake]
      refine ⟨_, rfl, rfl, ?_⟩
      rw [updateUsedEvent_moved, hev]
      exact published_arm hspace c'
    · rw [if_neg hstop]
      simp only [Bool.or_eq_true, beq_iff_eq, decide_eq_true_eq, not_or] at hstop
      -- the pass consumed an entry, so what is left needs less fuel
      have hlt : (entriesFrom entry idx c').length < fuel := by
        rcases Nat.lt_or_eq_of_le hsnd.1 with hlt | heq
        · omega
        · rcases hsnd.2 heq with hleft | hnil
          · have := hstop.1.2
            rw [List.length_append] at this
            omega
          · rw [hnil, List.length_nil, List.length_eq_zero_iff, entriesFrom_eq_nil] at heq
            exact absurd (heq.trans (entriesFrom_eq_nil.1 hnil).symm) hstop.1.1
      obtain ⟨d, hloop, hheads, hpub⟩ := ih hok' hm' (heads ++ taken) hlt
      refine ⟨d, hloop, ?_, hpub⟩
      rw [hheads, htake, List.length_append, Nat.sub_sub, List.append_assoc]

/-- Without, one pass is all there is. -/
theorem drainLoop_plain (hs : q.Steady each m₀ idx entry)
    (hu : q.Usable m₀.space) (hev : q.eventIdx = false) (max fuel : Nat)
    (hok : q.Kept ok) (hm : q.Holds m₀.space idx entry m) :
    ∃ d, drainLoop each max (fuel + 1) ⟨q.moved c used ok, m, [], st⟩ =
        some d ∧
      d.heads = (passHeads q.size max (entriesFrom entry idx c)).1 := by
  obtain ⟨c', used', ok', m', st', hpass, -, -, hm', -⟩ :=
    drainPass_spec hs hu max c used hok hm [] st
  rw [List.length_nil, Nat.sub_zero, List.nil_append] at hpass
  rw [drainLoop, hpass]
  simp only [drainShouldStop_moved hu _ _ _ _ _ hm', hev, Bool.false_and,
    Bool.not_false, Bool.or_true, if_true]
  exact ⟨_, rfl, rfl⟩

end

/-- More fuel changes nothing once a drain returned. -/
theorem drainLoop_mono {each : Callback} {max fuel fuel' : Nat}
    {d d' : Drained} (h : drainLoop each max fuel d = some d')
    (hle : fuel ≤ fuel') : drainLoop each max fuel' d = some d' := by
  induction fuel generalizing d fuel' with
  | zero => cases h
  | succ fuel ih =>
    cases fuel' with
    | zero => exact absurd hle (Nat.not_succ_le_zero _)
    | succ fuel' =>
      rw [drainLoop] at h ⊢
      split at h
      · rename_i hstop
        rw [if_pos hstop]
        exact h
      · rename_i hgo
        rw [if_neg hgo]
        exact ih h (Nat.le_of_succ_le_succ hle)

/-- The entries the driver offers: those between the queue's cursor and the
ring's index, on rings the device accepted. -/
def offered (q : VirtQueue) (s : AddressSpace) (idx : BitVec 16)
    (entry : BitVec 16 → BitVec 16) : List (BitVec 16) :=
  if q.Usable s then entriesFrom entry idx q.lastAvailIdx else []

/-- A drain of at most `max` heads, over an available ring nothing changes,
returns. It hands out exactly the first `max` entries on offer that name a
descriptor, in ring order, if EVENT_IDX is negotiated or no such entry comes
after one that names none, and only then. With EVENT_IDX, `avail_event` is
the queue's cursor afterwards. -/
theorem drain_hands (q : VirtQueue) (m : GuestMem) (max : Nat)
    (each : Callback) (idx : BitVec 16) (entry : BitVec 16 → BitVec 16)
    (hs : q.Steady each m idx entry) :
    ∃ d, (∀ fuel, 2 ^ 16 ≤ fuel → drainAvail fuel q m max each = some d) ∧
      (d.heads =
          ((q.offered m.space idx entry).filter (· < q.size)).take max ↔
        q.eventIdx = true ∨
          Sorted q.size max (q.offered m.space idx entry)) ∧
      (q.eventIdx = true → q.Published m.space d.mem d.q.lastAvailIdx) := by
  by_cases hu : q.Usable m.space
  · have hlen := entriesFrom_length entry idx q.lastAvailIdx
    have hheld := hs.held hu
    unfold offered
    rw [if_pos hu]
    cases hev : q.eventIdx with
    | true =>
      obtain ⟨d, hloop, hheads, hpub⟩ := drainLoop_event hs hu hev max
        (2 ^ 16) (.inl rfl) hheld [] hlen
      exact ⟨d, fun fuel hfuel => drainLoop_mono hloop hfuel,
        iff_of_true hheads (.inl rfl), fun _ => hpub⟩
    | false =>
      obtain ⟨d, hloop, hheads⟩ := drainLoop_plain hs hu hev max 0
        (.inl rfl) hheld
      refine ⟨d, fun fuel hfuel => drainLoop_mono hloop (by omega), ?_,
        fun h => (nomatch h)⟩
      rw [hheads, passHeads_eq_iff, or_iff_right Bool.false_ne_true]
  · obtain ⟨ok, hd⟩ := drainAvail_refused each max 0 hu
    refine ⟨_, fun fuel hfuel => drainLoop_mono hd (by omega), ?_, ?_⟩
    · unfold offered
      rw [if_neg hu, List.filter_nil, List.take_nil]
      exact iff_of_true rfl (.inr fun _ _ _ _ _ h => (nomatch h))
    · intro hev
      have hq : q.updateUsedEvent m =
          storeWord m (availEventGpa q.usedAddr q.size).toNat
            q.lastAvailIdx := by
        unfold updateUsedEvent
        rw [hev]
        rfl
      rw [hq]
      exact published_arm rfl q.lastAvailIdx

-- ==== an entry without a descriptor

/-- The bytes of an available ring at 0x2000: index three, and the entries
0, 7 and 1. -/
def threeEntries (a : Nat) : UInt8 :=
  if a = 0x2002 then 3 else if a = 0x2006 then 7 else if a = 0x2008 then 1
  else 0

/-- A ring of four with that available ring; 7 names no descriptor. -/
def ofFour (eventIdx : Bool) : VirtQueue :=
  ((VirtQueue.new 4).setAddrModern 0x1000 0x2000 0x3000).setEventIdx eventIdx

def fourMem : GuestMem := ⟨.newAnon 0 0x10000, threeEntries⟩

/-- What the ring reads at a cursor. -/
def fourEntry (c : BitVec 16) : BitVec 16 :=
  match (c % 4).toNat with
  | 1 => 7
  | 2 => 1
  | _ => 0

theorem holds_four (eventIdx : Bool) :
    (ofFour eventIdx).Holds fourMem.space 3 fourEntry fourMem := by
  refine ⟨rfl, by cases eventIdx <;> decide, fun c => ?_⟩
  have hlt : (c % 4).toNat < 4 := by
    rw [BitVec.toNat_umod]
    exact Nat.mod_lt _ (by decide)
  have hc : ∀ d : BitVec 16, d.toNat < 4 → readWord fourMem
      (0x2000 + 4 + d.setWidth 64 * 2 : BitVec 64).toNat
        = some (match d.toNat with | 1 => 7 | 2 => 1 | _ => 0) := by
    intro d hd
    have hcases : d = 0 ∨ d = 1 ∨ d = 2 ∨ d = 3 := by bv_omega
    rcases hcases with rfl | rfl | rfl | rfl <;> decide
  exact hc (c % 4) hlt

theorem steady_four (eventIdx : Bool) : (ofFour eventIdx).Steady idle fourMem 3 fourEntry := by
  refine ⟨fun _ => holds_four eventIdx, fun _ _ _ h => h,
    fun q' _ _ => ⟨q'.shadowUsedIdx, rfl⟩, fun m' w hm => ?_⟩
  -- the used ring's event word lies at 0x3024, above the available ring
  have hword : (availEventGpa (ofFour eventIdx).usedAddr
      (ofFour eventIdx).size).toNat = 0x3024 := by
    cases eventIdx <;> rfl
  rw [hword]
  refine ⟨by rw [storeWord_space, hm.space], ?_, fun c => ?_⟩
  · rw [readWord_storeWord_apart, hm.index]
    left
    show 0x2002 + 2 ≤ 0x3024
    decide
  · rw [readWord_storeWord_apart, hm.entries]
    left
    have hlt : (c % 4).toNat < 4 := by
      rw [BitVec.toNat_umod]
      exact Nat.mod_lt _ (by decide)
    show (0x2000 + 4 + (c % 4).setWidth 64 * 2 : BitVec 64).toNat + 2 ≤ 0x3024
    simp only [BitVec.toNat_add, BitVec.toNat_mul, BitVec.toNat_setWidth, BitVec.reduceToNat]
    omega

/-- With EVENT_IDX both heads of the ring are handed out. -/
theorem drain_hands_four :
    ∃ d, drainAvail (2 ^ 16) (ofFour true) fourMem 4 idle = some d ∧
      d.heads = [0, 1] := by
  obtain ⟨d, hd, hheads, -⟩ := drain_hands (ofFour true) fourMem 4 idle 3
    fourEntry (steady_four true)
  refine ⟨d, hd _ (Nat.le_refl _), (hheads.mpr (.inl rfl)).trans ?_⟩
  decide

/-- Without EVENT_IDX the drain of the same ring ends at the entry that names
no descriptor, and the head behind it is not handed out. -/
theorem drain_stops_short :
    (ofFour false).Steady idle fourMem 3 fourEntry ∧
      (drainAvail (2 ^ 16) (ofFour false) fourMem 4 idle).map (·.heads)
        = some [0] ∧
      (((ofFour false).offered fourMem.space 3 fourEntry).filter (· < 4)).take
        4 = [0, 1] := by
  have hloop : (drainAvail 1 (ofFour false) fourMem 4 idle).map (·.heads)
      = some [0] := by
    decide
  obtain ⟨d, hd, hheads⟩ := Option.map_eq_some_iff.1 hloop
  refine ⟨steady_four false, ?_, by decide⟩
  have hmore : drainAvail (2 ^ 16) (ofFour false) fourMem 4 idle = some d :=
    drainLoop_mono hd (by decide)
  rw [hmore, Option.map_some, hheads]

end VirtQueue

end Rshyve.Virtio.Pci
