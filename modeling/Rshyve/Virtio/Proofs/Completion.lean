/-
# The used ring and the wake-ups of a queue served by workers

`completions_kept`: whatever the workers, the driver and the batches, each
slot of the used ring holds the last entry serialised for it, every entry is
in exactly one batch, every batch is decided once, and a batch that is not
forced asks for an interrupt exactly when one of its entries has the index
the driver waits for.

# The two halves

The ring is a fact about one entry (`RingHolds.push`), carried over a batch
and over the run. A wake-up is a fact about one batch, `needEvent_iff`: the
wrapping comparison finds the event index among fewer than 2^16 consecutive
ones. Between a batch and its decision other batches are serialised, which
move neither the event word nor the two indices the worker remembers.

A batch of 2^16 entries ends where it began and is taken for an empty one,
and over a longer run the index passes the same value again. The two halves
also need what the driver lays out: entries that can be stored, and an event
word that is not part of the used ring.
-/
import Rshyve.Virtio.Completion

namespace Rshyve.Virtio.Pci

open Rshyve.Mem Function

-- ==== index numbers

/-- The used index of entry number `i`. -/
def number (init : BitVec 16) (i : Nat) : BitVec 16 :=
  init + BitVec.ofNat 16 i

theorem number_add (init : BitVec 16) (i n : Nat) :
    number init i + BitVec.ofNat 16 n = number init (i + n) := by
  unfold number
  rw [BitVec.ofNat_add, BitVec.add_assoc]

variable {init : BitVec 16} {bs : List Batch} {entries : List (BitVec 16 × BitVec 32)}

theorem number_inj {i j : Nat} (hi : i < 2 ^ 16) (hj : j < 2 ^ 16)
    (h : number init i = number init j) : i = j := by
  have hn := congrArg BitVec.toNat h
  have := init.isLt
  simp only [number, BitVec.toNat_add, BitVec.toNat_ofNat] at hn
  omega

/-- The comparison finds the event index among the indices of a batch. -/
theorem needEvent_iff {event old : BitVec 16} {n : Nat} (hn : n < 2 ^ 16) :
    vringNeedEvent event (old + BitVec.ofNat 16 n) old = true ↔
      ∃ j, j < n ∧ old + BitVec.ofNat 16 j = event := by
  have hold := old.isLt
  have hevent := event.isLt
  unfold vringNeedEvent
  rw [decide_eq_true_iff, BitVec.lt_def]
  simp only [BitVec.toNat_sub, BitVec.toNat_add, BitVec.toNat_ofNat, BitVec.reduceToNat]
  constructor
  · intro h
    refine ⟨(event - old).toNat, ?_, ?_⟩
    · rw [BitVec.toNat_sub]
      omega
    · rw [BitVec.ofNat_toNat, BitVec.setWidth_eq, BitVec.add_comm, BitVec.sub_add_cancel]
  · rintro ⟨j, hj, rfl⟩
    simp only [BitVec.toNat_add, BitVec.toNat_ofNat]
    omega

-- ==== the ring

section

variable {used : BitVec 64} {size : BitVec 16}

/-- Entries in different slots do not meet. -/
theorem usedEntry_apart {i j : BitVec 16} (h : i % size ≠ j % size) :
    Apart (usedEntryGpa used size i).toNat 8 (usedEntryGpa used size j).toNat 8 := by
  have hne : (i % size).toNat ≠ (j % size).toNat :=
    fun he => h (BitVec.eq_of_toNat_eq he)
  have hi := (i % size).isLt
  have hj := (j % size).isLt
  have hused := used.isLt
  unfold Apart usedEntryGpa
  simp only [BitVec.toNat_add, BitVec.toNat_mul, BitVec.toNat_setWidth, BitVec.reduceToNat]
  omega

/-- A used ring with entries, every word of which can be stored. -/
structure Storable (used : BitVec 64) (size : BitVec 16)
    (s : AddressSpace) : Prop where
  size_ne : size ≠ 0
  index : canStore s (usedIdxGpa used).toNat 2 2 = true
  entries : ∀ i, canStore s (usedEntryGpa used size i).toNat 8 4 = true

/-- Each slot holds the last of the entries `log` that fell on it, and the
index is past them all. -/
structure RingHolds (used : BitVec 64) (size init : BitVec 16)
    (log : List (BitVec 16 × BitVec 32)) (bytes : Nat → UInt8) : Prop where
  entries : ∀ i e, log[i]? = some e → (∀ j, i < j → j < log.length →
      number init j % size ≠ number init i % size) →
    peek bytes (usedEntryGpa used size (number init i)).toNat 8 = usedEntry e.1 e.2
  index : log ≠ [] → peek bytes (usedIdxGpa used).toNat 2
    = Bytes.le 2 (number init log.length).toNat

theorem writeUsed_bytes {m : GuestMem} (hs : Storable used size m.space)
    (idx descIdx : BitVec 16) (len : BitVec 32) :
    (writeUsed m used size idx descIdx len).bytes =
      poke (poke m.bytes (usedEntryGpa used size idx).toNat
        (usedEntry descIdx len)) (usedIdxGpa used).toNat
        (Bytes.le 2 (idx + 1).toNat) := by
  unfold writeUsed storeWord GuestMem.store
  simp only [usedEntry_length, Bytes.le_length, hs.entries idx, if_true, hs.index]

theorem RingHolds.push {log : List (BitVec 16 × BitVec 32)} {m : GuestMem}
    (h : RingHolds used size init log m.bytes) (hs : Storable used size m.space)
    (e : BitVec 16 × BitVec 32) :
    RingHolds used size init (log ++ [e])
      (writeUsed m used size (number init log.length) e.1 e.2).bytes := by
  have hidx (i : BitVec 16) (bytes : Nat → UInt8) (w : BitVec 16) :
      peek (poke bytes (usedIdxGpa used).toNat (Bytes.le 2 w.toNat))
        (usedEntryGpa used size i).toNat 8 = peek bytes (usedEntryGpa used size i).toNat 8 := by
    refine peek_poke_apart ?_
    rw [Bytes.le_length]
    exact (usedIdx_apart_entry used size i).symm
  rw [writeUsed_bytes hs]
  constructor
  · intro i e' he hlast
    rw [hidx]
    rcases Nat.lt_or_ge i log.length with hi | hi
    · -- an older entry: the new one is in another slot
      have hslot := hlast log.length hi (by simp)
      rw [peek_poke_apart (by
        rw [usedEntry_length]
        exact usedEntry_apart hslot.symm)]
      rw [List.getElem?_append_left hi] at he
      exact h.entries i e' he fun j hij hj =>
        hlast j hij (by rw [List.length_append]; omega)
    · rw [List.getElem?_append_right hi] at he
      have hi' : i = log.length := by
        rcases Nat.lt_or_eq_of_le hi with hlt | heq
        · rw [List.getElem?_eq_none (by simp; omega)] at he
          cases he
        · exact heq.symm
      subst hi'
      rw [Nat.sub_self] at he
      cases he
      have hself := @peek_poke_self m.bytes (usedEntryGpa used size (number init log.length)).toNat
        (usedEntry e.1 e.2)
      rwa [usedEntry_length] at hself
  · intro _
    have hself := @peek_poke_self
      (poke m.bytes (usedEntryGpa used size (number init log.length)).toNat
        (usedEntry e.1 e.2)) (usedIdxGpa used).toNat
      (Bytes.le 2 (number init log.length + 1).toNat)
    rw [Bytes.le_length] at hself
    rw [hself, List.length_append, List.length_singleton, ← number_add]
    rfl

end

@[simp] theorem writeEntries_space (entries : List (BitVec 16 × BitVec 32))
    (c : VirtioCompletion) (m : GuestMem) :
    (c.writeEntries m entries).2.space = m.space := by
  induction entries generalizing c m with
  | nil => rfl
  | cons e rest ih =>
    rw [VirtioCompletion.writeEntries, ih]
    exact writeUsed_space _ _ _ _ _ _

theorem RingHolds.publish {entries log : List (BitVec 16 × BitVec 32)}
    {c : VirtioCompletion} {m : GuestMem}
    (h : RingHolds c.usedAddr c.queueSize init log m.bytes)
    (hs : Storable c.usedAddr c.queueSize m.space)
    (hidx : c.writeIdx = number init log.length) :
    RingHolds c.usedAddr c.queueSize init (log ++ entries) (c.writeEntries m entries).2.bytes := by
  induction entries generalizing c m log with
  | nil => simpa [VirtioCompletion.writeEntries] using h
  | cons e rest ih =>
    have hpush := h.push hs e
    rw [← hidx] at hpush
    have hnext : c.writeIdx + 1 = number init (log ++ [e]).length := by
      rw [hidx, List.length_append, List.length_singleton, ← number_add]
      rfl
    have hspace : (writeUsed m c.usedAddr c.queueSize c.writeIdx e.1
        e.2).space = m.space := writeUsed_space _ _ _ _ _ _
    rw [VirtioCompletion.writeEntries, List.append_cons]
    exact @ih (log ++ [e]) (c.writeUsedEntry m e.1 e.2).1
      (c.writeUsedEntry m e.1 e.2).2 hpush (hspace ▸ hs) hnext

/-- A word that is no part of the used ring. -/
structure Outside (used : BitVec 64) (size : BitVec 16) (gpa : Nat) :
    Prop where
  index : Apart gpa 2 (usedIdxGpa used).toNat 2
  entries : ∀ i, Apart gpa 2 (usedEntryGpa used size i).toNat 8

theorem readWord_writeEntries_outside {gpa : Nat}
    (entries : List (BitVec 16 × BitVec 32)) (c : VirtioCompletion)
    (m : GuestMem) (h : Outside c.usedAddr c.queueSize gpa) :
    readWord (c.writeEntries m entries).2 gpa = readWord m gpa := by
  induction entries generalizing c m with
  | nil => rfl
  | cons e rest ih =>
    rw [VirtioCompletion.writeEntries,
      ih (c.writeUsedEntry m e.1 e.2).1 (c.writeUsedEntry m e.1 e.2).2 h]
    show readWord (writeUsed m c.usedAddr c.queueSize c.writeIdx e.1 e.2) gpa = readWord m gpa
    unfold writeUsed
    rw [readWord_storeWord_apart h.index, readWord_store_apart]
    rw [usedEntry_length]
    exact h.entries c.writeIdx

-- ==== batches

/-- Batches that follow one another from entry `k` up to entry `n`. -/
def Chained : Nat → List Batch → Nat → Prop
  | k, [], n => k = n
  | k, b :: bs, n => b.start = k ∧ 0 < b.len ∧ Chained (k + b.len) bs n

theorem Chained.append {k n len : Nat} (h : Chained k bs n) (hlen : 0 < len) :
    Chained k (bs ++ [⟨n, len⟩]) (n + len) := by
  induction bs generalizing k with
  | nil =>
    cases h
    exact ⟨rfl, hlen, rfl⟩
  | cons b bs ih => exact ⟨h.1, h.2.1, ih h.2.2⟩

theorem Chained.le {k n : Nat} (h : Chained k bs n) : k ≤ n := by
  induction bs generalizing k with
  | nil => exact Nat.le_of_eq h
  | cons b bs ih =>
    have := ih h.2.2
    omega

theorem Chained.bounds {k n : Nat} (h : Chained k bs n) {b : Batch}
    (hb : b ∈ bs) : k ≤ b.start ∧ b.start + b.len ≤ n := by
  induction bs generalizing k with
  | nil => cases hb
  | cons b' bs ih =>
    obtain ⟨hk, -, hrest⟩ := h
    rcases List.mem_cons.1 hb with rfl | hb
    · have := hrest.le
      omega
    · have := ih hrest hb
      omega

/-- The batch has entry number `i`. -/
def Batch.Has (b : Batch) (i : Nat) : Prop :=
  b.start ≤ i ∧ i < b.start + b.len

/-- Every entry is in exactly one batch. -/
theorem Chained.cover {k n i : Nat} (h : Chained k bs n) (hk : k ≤ i)
    (hn : i < n) : ∃! b, b ∈ bs ∧ b.Has i := by
  induction bs generalizing k with
  | nil =>
    have : k = n := h
    omega
  | cons b bs ih =>
    obtain ⟨hstart, hpos, hrest⟩ := h
    by_cases hi : i < k + b.len
    · refine ⟨b, ⟨List.mem_cons_self, by unfold Batch.Has; omega⟩, ?_⟩
      rintro b' ⟨hmem, hhas⟩
      rcases List.mem_cons.1 hmem with rfl | hmem
      · rfl
      · have := (hrest.bounds hmem).1
        unfold Batch.Has at hhas
        omega
    · obtain ⟨b₁, ⟨hmem, hhas⟩, huniq⟩ := ih hrest (by omega)
      refine ⟨b₁, ⟨List.mem_cons_of_mem _ hmem, hhas⟩, ?_⟩
      rintro b' ⟨hmem', hhas'⟩
      rcases List.mem_cons.1 hmem' with rfl | hmem'
      · unfold Batch.Has at hhas'
        omega
      · exact huniq b' ⟨hmem', hhas'⟩

-- ==== the invariant

namespace Workers

/-- What the answer of a batch that was not forced says, with EVENT_IDX and
the event index `event`. -/
def Answers (init event : BitVec 16) (a : Answer) : Prop :=
  a.forced = false → a.asks = vringNeedEvent event
    (number init (a.batch.start + a.batch.len)) (number init a.batch.start)

/-- Each batch is decided once: it is answered, or one worker has it. -/
structure Decided (s : Workers) : Prop where
  answered : ∀ a ∈ s.answers, a.batch ∈ s.batches
  pending : ∀ w u, s.pending w = some u → u.batch ∈ s.batches
  once : (s.answers.map (·.batch)).Nodup
  apart : ∀ w u, s.pending w = some u → u.batch ∉ s.answers.map (·.batch)
  own : ∀ w w' u u', s.pending w = some u → s.pending w' = some u' → u.batch = u'.batch → w = w'
  all : ∀ b ∈ s.batches, b ∈ s.answers.map (·.batch) ∨ ∃ w u, s.pending w = some u ∧ u.batch = b

/-- The invariant of a run from a queue `q` over memory `m`. -/
structure Inv (q : VirtQueue) (m : GuestMem) (s : Workers) : Prop where
  handler : s.handler = { VirtioCompletion.new q m with
    writeIdx := number (VirtioCompletion.new q m).writeIdx s.log.length
    forceIntrCount := s.handler.forceIntrCount }
  space : s.mem.space = m.space
  ring : RingHolds q.usedAddr q.size (VirtioCompletion.new q m).writeIdx s.log s.mem.bytes
  event : readWord s.mem (usedEventGpa q.availAddr q.size).toNat
    = readWord m (usedEventGpa q.availAddr q.size).toNat
  chained : Chained 0 s.batches s.log.length
  indices : ∀ w u, s.pending w = some u →
    u.oldIdx = number (VirtioCompletion.new q m).writeIdx u.batch.start ∧
    u.newIdx = number (VirtioCompletion.new q m).writeIdx (u.batch.start + u.batch.len)
  decided : s.Decided
  answers : q.eventIdx = true → ∀ event,
    readWord m (usedEventGpa q.availAddr q.size).toNat = some event →
    ∀ a ∈ s.answers, Answers (VirtioCompletion.new q m).writeIdx event a

-- ==== one event

section

variable {q : VirtQueue} {m : GuestMem} {s s' : Workers}

theorem Inv.usedAddr (h : s.Inv q m) : s.handler.usedAddr = q.usedAddr := by
  rw [h.handler]
  rfl

theorem Inv.availAddr (h : s.Inv q m) : s.handler.availAddr = q.availAddr := by
  rw [h.handler]
  rfl

theorem Inv.queueSize (h : s.Inv q m) : s.handler.queueSize = q.size := by
  rw [h.handler]
  rfl

theorem Inv.eventIdx (h : s.Inv q m) : s.handler.eventIdx = q.eventIdx := by
  rw [h.handler]
  rfl

theorem Inv.writeIdx (h : s.Inv q m) : s.handler.writeIdx
    = number (VirtioCompletion.new q m).writeIdx s.log.length := by
  rw [h.handler]

variable {w : Nat} {u : Undecided}

/-- A batch nobody has seen, in the hands of an idle worker. -/
theorem Decided.publish (h : s.Decided) (hidle : s.pending w = none) (hnew : u.batch ∉ s.batches)
    (hp : s'.pending = update s.pending w (some u))
    (hb : s'.batches = s.batches ++ [u.batch])
    (ha : s'.answers = s.answers) : s'.Decided := by
  have hcase {w' : Nat} {u' : Undecided} (h' : s'.pending w' = some u') :
      (w' = w ∧ u' = u) ∨ s.pending w' = some u' := by
    rw [hp] at h'
    by_cases hw : w' = w
    · subst hw
      rw [update_self] at h'
      exact .inl ⟨rfl, (Option.some.inj h').symm⟩
    · rw [update_of_ne hw] at h'
      exact .inr h'
  constructor
  · intro a hmem
    rw [ha] at hmem
    rw [hb]
    exact List.mem_append_left _ (h.answered a hmem)
  · intro w' u' hu'
    rw [hb]
    rcases hcase hu' with ⟨-, rfl⟩ | hold
    · exact List.mem_append_right _ (List.mem_singleton.2 rfl)
    · exact List.mem_append_left _ (h.pending w' u' hold)
  · rw [ha]
    exact h.once
  · intro w' u' hu' hmem
    rw [ha] at hmem
    rcases hcase hu' with ⟨-, rfl⟩ | hold
    · obtain ⟨a, hmem, hab⟩ := List.mem_map.1 hmem
      exact hnew (hab ▸ h.answered a hmem)
    · exact h.apart w' u' hold hmem
  · intro w₁ w₂ u₁ u₂ h₁ h₂ heq
    rcases hcase h₁ with ⟨hw₁, hu₁⟩ | hold₁ <;> rcases hcase h₂ with ⟨hw₂, hu₂⟩ | hold₂
    · rw [hw₁, hw₂]
    · exact absurd (hu₁ ▸ heq ▸ h.pending w₂ u₂ hold₂) hnew
    · exact absurd (hu₂ ▸ heq ▸ h.pending w₁ u₁ hold₁) hnew
    · exact h.own w₁ w₂ u₁ u₂ hold₁ hold₂ heq
  · intro b hmem
    rw [hb] at hmem
    rw [ha]
    rcases List.mem_append.1 hmem with hmem | hmem
    · rcases h.all b hmem with hdone | ⟨w', u', hu', hub⟩
      · exact .inl hdone
      · refine .inr ⟨w', u', ?_, hub⟩
        rw [hp, update_of_ne, hu']
        rintro rfl
        rw [hidle] at hu'
        cases hu'
    · cases List.mem_singleton.1 hmem
      exact .inr ⟨w, u, by rw [hp, update_self], rfl⟩

theorem Decided.decide (h : s.Decided)
    {a : Answer} (hu : s.pending w = some u) (hau : a.batch = u.batch)
    (hp : s'.pending = update s.pending w none)
    (hb : s'.batches = s.batches) (ha : s'.answers = s.answers ++ [a]) :
    s'.Decided := by
  have hself : s'.pending w = none := by rw [hp, update_self]
  have hother {w' : Nat} {u' : Undecided} (h' : s'.pending w' = some u') :
      w' ≠ w ∧ s.pending w' = some u' := by
    have hne : w' ≠ w := by
      rintro rfl
      rw [hself] at h'
      cases h'
    rw [hp, update_of_ne hne] at h'
    exact ⟨hne, h'⟩
  constructor
  · intro a' hmem
    rw [ha] at hmem
    rw [hb]
    rcases List.mem_append.1 hmem with hmem | hmem
    · exact h.answered a' hmem
    · cases List.mem_singleton.1 hmem
      rw [hau]
      exact h.pending w u hu
  · intro w' u' hu'
    rw [hb]
    exact h.pending w' u' (hother hu').2
  · rw [ha, List.map_append, List.nodup_append]
    refine ⟨h.once, List.nodup_singleton _, ?_⟩
    intro b hmem b' hb' heq
    have hb' : b' = a.batch := List.mem_singleton.1 hb'
    rw [heq, hb', hau] at hmem
    exact h.apart w u hu hmem
  · intro w' u' hu' hmem
    obtain ⟨hne, hu'⟩ := hother hu'
    rw [ha, List.map_append] at hmem
    rcases List.mem_append.1 hmem with hmem | hmem
    · exact h.apart w' u' hu' hmem
    · rw [List.map_singleton, List.mem_singleton, hau] at hmem
      exact hne (h.own w' w u' u hu' hu hmem)
  · intro w₁ w₂ u₁ u₂ h₁ h₂ heq
    exact h.own w₁ w₂ u₁ u₂ (hother h₁).2 (hother h₂).2 heq
  · intro b hmem
    rw [hb] at hmem
    rw [ha, List.map_append]
    rcases h.all b hmem with hdone | ⟨w', u', hu', hub⟩
    · exact .inl (List.mem_append_left _ hdone)
    · by_cases hw : w' = w
      · subst hw
        rw [hu] at hu'
        cases hu'
        left
        rw [List.mem_append, List.map_singleton, List.mem_singleton]
        exact .inr (hub ▸ hau.symm)
      · refine .inr ⟨w', u', ?_, hub⟩
        rw [hp, update_of_ne hw, hu']

theorem Inv.publish (h : s.Inv q m) (hst : Storable q.usedAddr q.size m.space)
    (hout : Outside q.usedAddr q.size (usedEventGpa q.availAddr q.size).toNat)
    (hs : s.step (.publish w entries) = some s') : s'.Inv q m := by
  simp only [step] at hs
  split at hs
  · cases hs
  · cases hs
    exact h
  rename_i oldIdx handler mem hidle hpub
  unfold VirtioCompletion.publishBatch at hpub
  split at hpub
  · cases hpub
  rename_i hne
  obtain ⟨rfl, hleft⟩ := Prod.mk.inj (Option.some.inj hpub)
  obtain rfl : (s.handler.writeEntries s.mem entries).1 = handler :=
    congrArg Prod.fst hleft
  obtain rfl : (s.handler.writeEntries s.mem entries).2 = mem :=
    congrArg Prod.snd hleft
  have hlen : 0 < entries.length := List.length_pos_iff.2 hne
  have hidx := h.writeIdx
  -- a batch that was there ends before the new one starts
  have hnew : (⟨s.log.length, entries.length⟩ : Batch) ∉ s.batches := by
    intro hmem
    have hle : s.log.length + entries.length ≤ s.log.length :=
      (h.chained.bounds hmem).2
    omega
  cases hs
  constructor
  · rw [writeEntries_fst, hidx, number_add, h.handler]
    simp only [List.length_append]
  · rw [writeEntries_space, h.space]
  · have hring := h.ring
    have hst' := hst
    rw [← h.usedAddr, ← h.queueSize] at hring hst' ⊢
    rw [← h.space] at hst'
    exact hring.publish hst' hidx
  · rw [readWord_writeEntries_outside, h.event]
    rw [h.usedAddr, h.queueSize]
    exact hout
  · rw [List.length_append]
    exact h.chained.append hlen
  · intro w' u hu
    dsimp only at hu
    by_cases hw : w' = w
    · subst hw
      rw [update_self] at hu
      cases hu
      refine ⟨hidx, ?_⟩
      rw [writeEntries_fst, hidx, number_add]
    · rw [update_of_ne hw] at hu
      exact h.indices w' u hu
  · exact h.decided.publish (u := ⟨⟨s.log.length, entries.length⟩, _, _⟩) hidle hnew rfl rfl rfl
  · exact h.answers

theorem Inv.decide (h : s.Inv q m) (hs : s.step (.decide w) = some s') : s'.Inv q m := by
  simp only [step] at hs
  split at hs
  · cases hs
  rename_i u hu
  obtain ⟨hold, hnew⟩ := h.indices w u hu
  cases hs
  constructor
  · unfold VirtioCompletion.shouldInterrupt
    split
    · rw [h.handler]
    · exact h.handler
  · exact h.space
  · exact h.ring
  · exact h.event
  · exact h.chained
  · intro w' u' hu'
    dsimp only at hu'
    by_cases hw : w' = w
    · subst hw
      rw [update_self] at hu'
      cases hu'
    · rw [update_of_ne hw] at hu'
      exact h.indices w' u' hu'
  · exact h.decided.decide (a := ⟨u.batch, _, _⟩) hu rfl rfl rfl rfl
  · intro hev event hevent a ha
    rcases List.mem_append.1 ha with ha | ha
    · exact h.answers hev event hevent a ha
    · cases List.mem_singleton.1 ha
      intro hforced
      have hforce : ¬ s.handler.forceIntrCount ≠ 0 := by simpa using hforced
      unfold VirtioCompletion.shouldInterrupt wantsInterrupt
      rw [if_neg hforce]
      simp only [h.eventIdx, hev, h.availAddr, h.queueSize, h.event, hevent,
        Bool.not_true, Bool.false_eq_true, if_false]
      rw [hold, hnew]

theorem Inv.force (h : s.Inv q m) (count : BitVec 32) :
    ({ s with handler := s.handler.setForceInterrupt count } : Workers).Inv q m := by
  refine { h with handler := ?_, decided := { h.decided with } }
  unfold VirtioCompletion.setForceInterrupt
  rw [h.handler]

/-- Every entry lies in one of the slots of the ring. -/
theorem usedEntryGpa_slot (used : BitVec 64) {size : BitVec 16} (hsize : size ≠ 0) (i : BitVec 16) :
    ∃ k, k < size.toNat ∧
      usedEntryGpa used size i = usedEntryGpa used size (BitVec.ofNat 16 k) := by
  have hpos : 0 < size.toNat := by
    rcases Nat.eq_zero_or_pos size.toNat with h | h
    · exact absurd (BitVec.eq_of_toNat_eq h) hsize
    · exact h
  refine ⟨(i % size).toNat, ?_, ?_⟩
  · rw [BitVec.toNat_umod]
    exact Nat.mod_lt _ hpos
  · unfold usedEntryGpa
    rw [BitVec.ofNat_toNat, BitVec.setWidth_eq]
    have hmod : i % size % size = i % size := by
      apply BitVec.eq_of_toNat_eq
      simp only [BitVec.toNat_umod]
      exact Nat.mod_mod _ _
    rw [hmod]

theorem Inv.driver (h : s.Inv q m) (hst : Storable q.usedAddr q.size m.space) {gpa : Nat}
    {data : List UInt8} (hs : s.step (.driver gpa data) = some s') :
    s'.Inv q m := by
  simp only [step] at hs
  split at hs
  · rename_i hspares
    cases hs
    unfold VirtioCompletion.spares at hspares
    simp only [Bool.and_eq_true, decide_eq_true_eq, List.all_eq_true,
      List.mem_range, h.usedAddr, h.availAddr, h.queueSize] at hspares
    obtain ⟨⟨hidx, hevent⟩, hslots⟩ := hspares
    refine { h with ring := ?_, event := ?_, decided := { h.decided with } }
    · constructor
      · intro i e he hlast
        obtain ⟨k, hk, heq⟩ := usedEntryGpa_slot q.usedAddr hst.size_ne
          (number (VirtioCompletion.new q m).writeIdx i)
        have hapart := hslots k hk
        rw [← heq] at hapart
        rw [peek_poke_apart hapart]
        exact h.ring.entries i e he hlast
      · intro hne
        rw [peek_poke_apart hidx]
        exact h.ring.index hne
    · rw [← h.event]
      unfold readWord
      rw [GuestMem.load_poke_apart hevent]
  · cases hs

-- ==== whole runs

theorem Inv.start (q : VirtQueue) (m : GuestMem) : (Workers.start q m).Inv q m where
  handler := by
    simp [Workers.start, number]
  space := rfl
  ring := ⟨fun _ _ he => (nomatch he), fun hne => absurd rfl hne⟩
  event := rfl
  chained := rfl
  indices := fun _ _ hu => (nomatch hu)
  decided := ⟨nofun, nofun, .nil, nofun, nofun, nofun⟩
  answers := fun _ _ _ _ ha => (nomatch ha)

theorem inv_run (hst : Storable q.usedAddr q.size m.space) (hout : Outside q.usedAddr q.size
      (usedEventGpa q.availAddr q.size).toNat)
    {events : List WorkerEvent}
    (hrun : Conc.run step (Workers.start q m) events = some s) :
    s.Inv q m := by
  refine Conc.run_inv (fun s e s' h hs => ?_) hrun (.start q m)
  cases e with
  | publish worker entries => exact h.publish hst hout hs
  | decide worker => exact h.decide hs
  | force count =>
    cases hs
    exact h.force count
  | driver gpa data => exact h.driver hst hs

end

/-- One of the batch's entries has the index `event`. -/
def Passes (init event : BitVec 16) (b : Batch) : Prop :=
  ∃ i, b.Has i ∧ number init i = event

variable {event : BitVec 16}

/-- A short batch that is not forced asks exactly if it passes the event
index. -/
theorem Answers.iff {a : Answer} (h : Answers init event a) (hforced : a.forced = false)
    (hlen : a.batch.len < 2 ^ 16) :
    a.asks = true ↔ Passes init event a.batch := by
  rw [h hforced, ← number_add, needEvent_iff hlen]
  constructor
  · rintro ⟨j, hj, hevent⟩
    refine ⟨a.batch.start + j, ⟨by omega, by omega⟩, ?_⟩
    rw [← number_add, hevent]
  · rintro ⟨i, ⟨hle, hlt⟩, hevent⟩
    refine ⟨i - a.batch.start, by omega, ?_⟩
    rw [number_add, Nat.add_sub_cancel' hle, hevent]

/-- In a log of at most 2^16 entries one batch passes the event index. -/
theorem passes_unique {n : Nat} (h : Chained 0 bs n)
    (hn : n ≤ 2 ^ 16) {b b' : Batch} (hb : b ∈ bs) (hb' : b' ∈ bs)
    (hp : Passes init event b) (hp' : Passes init event b') : b = b' := by
  obtain ⟨i, hi, hevent⟩ := hp
  obtain ⟨j, hj, hevent'⟩ := hp'
  have hin : i < n := Nat.lt_of_lt_of_le hi.2 (h.bounds hb).2
  have hjn : j < n := Nat.lt_of_lt_of_le hj.2 (h.bounds hb').2
  have hij : i = j :=
    number_inj (by omega) (by omega) (hevent.trans hevent'.symm)
  subst hij
  exact (h.cover (Nat.zero_le i) hin).unique ⟨hb, hi⟩ ⟨hb', hj⟩

/-- Workers that complete on one used ring, in any number, order and batches.
Each slot holds the last entry serialised for it and the index is past all of
them; every entry is in exactly one batch and every batch is decided once.
With EVENT_IDX and an event index the driver leaves alone, a batch of fewer
than 2^16 entries that is not forced asks for an interrupt exactly if it
passes the event index, and among at most 2^16 entries one batch does. -/
theorem completions_kept (q : VirtQueue) (m : GuestMem)
    (hst : Storable q.usedAddr q.size m.space)
    (hout : Outside q.usedAddr q.size
      (usedEventGpa q.availAddr q.size).toNat)
    (events : List WorkerEvent) (s : Workers)
    (hrun : Conc.run step (start q m) events = some s) :
    let init := (VirtioCompletion.new q m).writeIdx
    RingHolds q.usedAddr q.size init s.log s.mem.bytes ∧
    (∀ i, i < s.log.length → ∃! b, b ∈ s.batches ∧ b.Has i) ∧
    s.Decided ∧
    (q.eventIdx = true → ∀ event,
      readWord m (usedEventGpa q.availAddr q.size).toNat = some event →
      (∀ a ∈ s.answers, a.forced = false → a.batch.len < 2 ^ 16 →
        (a.asks = true ↔ Passes init event a.batch)) ∧
      (s.log.length ≤ 2 ^ 16 → ∀ b ∈ s.batches, ∀ b' ∈ s.batches,
        Passes init event b → Passes init event b' → b = b')) := by
  have h := inv_run hst hout hrun
  refine ⟨h.ring, fun i hi => h.chained.cover (Nat.zero_le i) hi, h.decided,
    fun hev event hevent => ⟨fun a ha hforced hlen => ?_, ?_⟩⟩
  · exact (h.answers hev event hevent a ha).iff hforced hlen
  · exact fun hn b hb b' hb' => passes_unique h.chained hn hb hb'

-- ==== fixed runs

/-- A queue of four with EVENT_IDX, its used ring at 0x3000. -/
def watched (avail : BitVec 64) : VirtQueue :=
  ((VirtQueue.new 4).setAddrModern 0x1000 avail 0x3000).setEventIdx true

/-- Zeroed memory from address zero on. -/
def zeroed (kind : RegionKind) : GuestMem :=
  ⟨⟨[anonRegion 0 0x10000 kind]⟩, fun _ => 0⟩

/-- A fact about every entry of a ring of four is one about four slots. -/
theorem forall_slots {P : BitVec 64 → Prop}
    (h : ∀ k, k < 4 → P (usedEntryGpa 0x3000 4 (BitVec.ofNat 16 k)))
    (i : BitVec 16) : P (usedEntryGpa 0x3000 4 i) := by
  obtain ⟨k, hk, heq⟩ := @usedEntryGpa_slot 0x3000 4 (by decide) i
  rw [heq]
  exact h k hk

theorem watched_storable : Storable (watched 0x2000).usedAddr (watched 0x2000).size
      (zeroed .ram).space :=
  ⟨by decide, by decide,
    forall_slots (P := fun gpa => canStore (zeroed .ram).space gpa.toNat 8 4
      = true) (by decide)⟩

theorem watched_outside : Outside (watched 0x2000).usedAddr (watched 0x2000).size
      (usedEventGpa (watched 0x2000).availAddr (watched 0x2000).size).toNat :=
  ⟨by decide, forall_slots (P := fun gpa => Apart
    (usedEventGpa 0x2000 4).toNat 2 gpa.toNat 8) (by decide)⟩

/-- Two workers, each with a batch, decided in the other order. -/
def twoWorkers : List WorkerEvent :=
  [.publish 0 [(1, 16)], .publish 1 [(2, 32), (3, 48)], .decide 1, .decide 0]

/-- The first batch passes the event index, the second does not. -/
theorem completions_kept_twoWorkers :
    ∃ s, Conc.run step (start (watched 0x2000) (zeroed .ram)) twoWorkers
        = some s ∧
      s.answers = [⟨⟨1, 2⟩, false, false⟩, ⟨⟨0, 1⟩, false, true⟩] ∧
      Passes 0 0 ⟨0, 1⟩ ∧ ¬ Passes 0 0 ⟨1, 2⟩ := by
  obtain ⟨s, hs, hanswers⟩ : ∃ s, Conc.run step (start (watched 0x2000)
      (zeroed .ram)) twoWorkers = some s ∧
      s.answers = [⟨⟨1, 2⟩, false, false⟩, ⟨⟨0, 1⟩, false, true⟩] := by
    decide
  obtain ⟨-, -, -, hevent⟩ := completions_kept (watched 0x2000) (zeroed .ram)
    watched_storable watched_outside twoWorkers s hs
  have hiff := (hevent rfl 0 (by decide)).1
  rw [hanswers] at hiff
  refine ⟨s, hs, hanswers, ?_, ?_⟩
  · exact (hiff ⟨⟨0, 1⟩, false, true⟩ (by simp) rfl (by decide)).1 rfl
  · intro hp
    exact absurd
      ((hiff ⟨⟨1, 2⟩, false, false⟩ (by simp) rfl (by decide)).2 hp) (by nofun)

-- ==== lost and repeated wake-ups

/-- A state in which worker 0 is idle, nothing is forced, and the event word
outside the used ring reads `event`. -/
structure Watching (event : BitVec 16) (s : Workers) : Prop where
  idle : s.pending 0 = none
  unforced : s.handler.forceIntrCount = 0
  feature : s.handler.eventIdx = true
  outside : Outside s.handler.usedAddr s.handler.queueSize
    (usedEventGpa s.handler.availAddr s.handler.queueSize).toNat
  word : readWord s.mem (usedEventGpa s.handler.availAddr s.handler.queueSize).toNat = some event

/-- Worker 0 publishes a batch and decides it. -/
theorem Watching.batch {s : Workers} (h : Watching event s)
    (hne : entries ≠ []) (rest : List WorkerEvent) :
    ∃ s', Conc.run step s (.publish 0 entries :: .decide 0 :: rest) = Conc.run step s' rest ∧
      Watching event s' ∧
      s'.log.length = s.log.length + entries.length ∧
      s'.handler.writeIdx = s.handler.writeIdx + BitVec.ofNat 16 entries.length ∧
      s'.answers = s.answers ++ [⟨⟨s.log.length, entries.length⟩, false, vringNeedEvent event
          (s.handler.writeIdx + BitVec.ofNat 16 entries.length)
          s.handler.writeIdx⟩] := by
  have hword : readWord (s.handler.writeEntries s.mem entries).2
      (usedEventGpa s.handler.availAddr s.handler.queueSize).toNat
      = some event := by
    rw [readWord_writeEntries_outside _ _ _ h.outside, h.word]
  have hstep : ∃ u b, Conc.run step s (.publish 0 entries :: .decide 0 :: rest)
      = Conc.run step ⟨{ s.handler with writeIdx :=
            s.handler.writeIdx + BitVec.ofNat 16 entries.length },
          (s.handler.writeEntries s.mem entries).2,
          update (update s.pending 0 (some u)) 0 none,
          s.log ++ entries, s.batches ++ [b],
          s.answers ++ [⟨⟨s.log.length, entries.length⟩, false, vringNeedEvent event
              (s.handler.writeIdx + BitVec.ofNat 16 entries.length)
              s.handler.writeIdx⟩]⟩ rest := by
    refine ⟨⟨⟨s.log.length, entries.length⟩, s.handler.writeIdx,
      s.handler.writeIdx + BitVec.ofNat 16 entries.length⟩,
      ⟨s.log.length, entries.length⟩, ?_⟩
    simp only [Conc.run, step, h.idle, VirtioCompletion.publishBatch,
      if_neg hne, Option.bind_some, update_self, writeEntries_fst, h.unforced,
      VirtioCompletion.shouldInterrupt, wantsInterrupt, h.feature, hword]
    rfl
  obtain ⟨u, b, hstep⟩ := hstep
  refine ⟨_, hstep, ?_, List.length_append .., rfl, rfl⟩
  refine ⟨?_, h.unforced, h.feature, h.outside, hword⟩
  dsimp only
  rw [update_self]

theorem watching_start : Watching 0 (start (watched 0x2000) (zeroed .ram)) :=
  ⟨rfl, rfl, rfl, watched_outside, by decide⟩

/-- A batch of 2^16 entries passes every index and asks for nothing; over
more than 2^16 entries two batches pass the same index and both ask; a used
ring in read-only memory does not take an entry; and a wake-up is lost when
the event word is the used ring's index. -/
theorem wakeups_miscounted :
    (∃ s, Conc.run step (start (watched 0x2000) (zeroed .ram))
        [.publish 0 (List.replicate 65536 (0, 0)), .decide 0] = some s ∧
      s.answers = [⟨⟨0, 65536⟩, false, false⟩]) ∧
    (∃ s, Conc.run step (start (watched 0x2000) (zeroed .ram))
        [.publish 0 [(0, 0)], .decide 0,
          .publish 0 (List.replicate 65535 (0, 0)), .decide 0,
          .publish 0 [(0, 0)], .decide 0] = some s ∧
      s.answers.map (·.asks) = [true, false, true]) ∧
    (Conc.run step (start (watched 0x2000) (zeroed .rom))
      [.publish 0 [(1, 16)]]).any (fun s =>
        peek s.mem.bytes 0x3004 8 != usedEntry 1 16) = true ∧
    (Conc.run step (start (watched 0x2ff6) (zeroed .ram))
      [.publish 0 [(1, 16)], .decide 0]).any (fun s =>
        s.answers == [⟨⟨0, 1⟩, false, false⟩]) = true := by
  refine ⟨?_, ?_, by decide, by decide⟩
  · obtain ⟨s, hrun, -, -, -, hanswers⟩ := watching_start.batch
      (List.cons_ne_nil (0, 0) (List.replicate 65535 (0, 0))) []
    refine ⟨s, hrun, hanswers.trans ?_⟩
    rw [List.length_cons, List.length_replicate]
    rfl
  · obtain ⟨s₁, hrun₁, hw₁, -, hidx₁, hans₁⟩ := watching_start.batch
      (List.cons_ne_nil (0, 0) [])
      [.publish 0 (List.replicate 65535 (0, 0)), .decide 0,
        .publish 0 [(0, 0)], .decide 0]
    obtain ⟨s₂, hrun₂, hw₂, -, hidx₂, hans₂⟩ := hw₁.batch
      (List.cons_ne_nil (0, 0) (List.replicate 65534 (0, 0)))
      [.publish 0 [(0, 0)], .decide 0]
    obtain ⟨s₃, hrun₃, -, -, -, hans₃⟩ := hw₂.batch
      (List.cons_ne_nil (0, 0) []) []
    refine ⟨s₃, hrun₁.trans (hrun₂.trans hrun₃), ?_⟩
    rw [List.length_cons, List.length_replicate] at hans₂ hidx₂
    rw [hans₃, hidx₂, hans₂, hidx₁, hans₁]
    rfl

end Workers

end Rshyve.Virtio.Pci
