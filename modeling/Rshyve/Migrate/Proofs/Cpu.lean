/-
# What a guest sees before and after a migration

The preamble check compares six words. What they cover is what a guest on
the source's table sees of leaf 1, of leaf 7 without its subleaf, and of the
low half of XCR0 as the processor supports it. They leave out the first
subleaf of leaf 7, the high half of XCR0, what the destination's system has
enabled of XCR0, and whether the destination has leaf 0xD at all, which the
table all depends on. With these given (`Uncompared`), a check that passes
means that the guest loses nothing, and without one of them it loses a bit.
-/
import Rshyve.Migrate.Cpu
import Rshyve.Migrate.Session

namespace Rshyve.Migrate

open CpuidTable (buildFrom)

-- ==== bits

/-- Every bit of `a` is one of `b`. -/
def BitsIn {w : Nat} (a b : BitVec w) : Prop := a &&& ~~~b = 0

instance {w : Nat} (a b : BitVec w) : Decidable (BitsIn a b) :=
  inferInstanceAs (Decidable (_ = _))

variable {i : Nat}

theorem BitsIn.bit {w : Nat} {a b : BitVec w} (h : BitsIn a b)
    (ha : a.getLsbD i = true) : b.getLsbD i = true := by
  have hi := congrArg (BitVec.getLsbD · i) h
  have hlt := BitVec.lt_of_getLsbD ha
  simp only [BitVec.getLsbD_and, BitVec.getLsbD_not, ha, hlt, decide_true, Bool.true_and] at hi
  simpa using hi

theorem BitsIn.of_bits {w : Nat} {a b : BitVec w}
    (h : ∀ i, a.getLsbD i = true → b.getLsbD i = true) : BitsIn a b := by
  refine BitVec.eq_of_getLsbD_eq fun i hi => ?_
  rw [BitVec.getLsbD_and, BitVec.getLsbD_not]
  cases ha : a.getLsbD i with
  | false => simp
  | true => simp [h i ha]

theorem and_not_bit {w : Nat} {a m : BitVec w} : (a &&& ~~~m).getLsbD i = true ↔
      a.getLsbD i = true ∧ m.getLsbD i = false := by
  constructor
  · intro h
    rw [BitVec.getLsbD_and, Bool.and_eq_true, BitVec.getLsbD_not, Bool.and_eq_true] at h
    exact ⟨h.1, by simpa using h.2.2⟩
  · rintro ⟨ha, hm⟩
    rw [BitVec.getLsbD_and, BitVec.getLsbD_not, ha, hm]
    simpa using BitVec.lt_of_getLsbD ha

theorem or_bit {w : Nat} {a b : BitVec w} :
    (a ||| b).getLsbD i = true ↔ a.getLsbD i = true ∨ b.getLsbD i = true := by
  rw [BitVec.getLsbD_or, Bool.or_eq_true]

-- ==== what is visible

/-- The table shows this bit of a register. -/
def Shown (entries : List CpuidEntry) (func index : Nat)
    (reg : Regs → BitVec 32) (bit : Nat) : Prop :=
  ∃ e ∈ entries, e.function = func ∧ e.index = index ∧ (reg e.regs).getLsbD bit = true

/-- The registers whose bits are features of leaf 1 and leaf 7, and those
that hold the XCR0 components. -/
inductive IsFeature : Nat → Nat → (Regs → BitVec 32) → Prop
  | leaf1Ecx : IsFeature 1 0 Regs.ecx
  | leaf1Edx : IsFeature 1 0 Regs.edx
  | leaf7Ebx : IsFeature 7 0 Regs.ebx
  | leaf7Ecx : IsFeature 7 0 Regs.ecx
  | leaf7Edx : IsFeature 7 0 Regs.edx
  | leaf71Eax : IsFeature 7 1 Regs.eax
  | leaf71Ebx : IsFeature 7 1 Regs.ebx
  | leaf71Ecx : IsFeature 7 1 Regs.ecx
  | leaf71Edx : IsFeature 7 1 Regs.edx
  | xcr0Low : IsFeature 0xd 0 Regs.eax
  | xcr0High : IsFeature 0xd 0 Regs.edx

/-- Filling in a vCPU's identifiers touches no feature. -/
theorem shown_entriesFor {func index : Nat} {reg : Regs → BitVec 32}
    (h : IsFeature func index reg) (table : CpuidTable) (vcpuid bit : Nat) :
    Shown (table.entriesFor vcpuid) func index reg bit ↔
      Shown table.entries func index reg bit := by
  have hkeep : ∀ e : CpuidEntry, (e.specialize vcpuid).function = e.function ∧
      (e.specialize vcpuid).index = e.index ∧
      (e.function = func → reg (e.specialize vcpuid).regs = reg e.regs) := by
    intro e
    unfold CpuidEntry.specialize
    split
    case isTrue h1 =>
      refine ⟨rfl, rfl, fun hf => ?_⟩
      cases h <;> first | rfl | omega
    split
    case isTrue hb =>
      refine ⟨rfl, rfl, fun hf => ?_⟩
      cases h <;> omega
    split
    case isTrue he =>
      refine ⟨rfl, rfl, fun hf => ?_⟩
      cases h <;> omega
    case isFalse => exact ⟨rfl, rfl, fun _ => rfl⟩
  constructor
  · rintro ⟨_, hmem, hf, hi, hbit⟩
    obtain ⟨e, he, rfl⟩ := List.mem_map.1 hmem
    obtain ⟨hfun, hidx, hreg⟩ := hkeep e
    rw [hfun] at hf
    rw [hidx] at hi
    rw [hreg hf] at hbit
    exact ⟨e, he, hf, hi, hbit⟩
  · rintro ⟨e, he, hf, hi, hbit⟩
    obtain ⟨hfun, hidx, hreg⟩ := hkeep e
    refine ⟨_, List.mem_map_of_mem he, hfun.trans hf, hidx.trans hi, ?_⟩
    rwa [hreg hf]

-- ==== the table

variable {host : CpuidSource} {baseline : CpuBaseline} {mask : FeatureMask} {e : CpuidEntry}

variable {numCpus : Nat}

theorem function_of_mem_leaf4Entries {n idx : Nat}
    (h : e ∈ leaf4Entries host numCpus n idx) : e.function = 4 := by
  induction n generalizing idx with
  | zero => cases h
  | succ n ih =>
    unfold leaf4Entries at h
    dsimp only at h
    split at h
    · cases h
    · rcases List.mem_cons.1 h with rfl | h
      · rfl
      · exact ih h

theorem function_of_mem_leafDComponents {xcr0 xss : BitVec 64} {n bit : Nat}
    {size : BitVec 32} (h : e ∈ (leafDComponents host xcr0 xss n bit size).1) :
    e.function = 0xd ∧ bit ≤ e.index := by
  induction n generalizing bit size with
  | zero => cases h
  | succ n ih =>
    unfold leafDComponents at h
    dsimp only at h
    split at h
    · obtain ⟨hf, hi⟩ := ih h
      exact ⟨hf, by omega⟩
    split at h
    · obtain ⟨hf, hi⟩ := ih h
      exact ⟨hf, by omega⟩
    · rcases List.mem_cons.1 h with rfl | h
      · exact ⟨rfl, Nat.le_refl bit⟩
      · obtain ⟨hf, hi⟩ := ih h
        exact ⟨hf, by omega⟩

theorem le_function_of_mem_extendedEntries {intel : Bool}
    (h : e ∈ extendedEntries host intel numCpus) : 0x80000000 ≤ e.function := by
  simp only [extendedEntries, List.mem_append, List.mem_singleton,
    List.mem_flatMap, List.mem_ite_nil_right, List.mem_ite_nil_left] at h
  rcases h with ((rfl | ⟨i, _, _, rfl⟩) | ⟨_, rfl⟩) | ⟨_, _, rfl⟩ <;> simp [plainEntry]

theorem function_of_mem_leaf7Entries (h : e ∈ leaf7Entries host mask) : e.function = 7 := by
  unfold leaf7Entries at h
  dsimp only at h
  split at h
  · simp only [List.mem_cons, List.not_mem_nil, or_false] at h
    rcases h with rfl | rfl <;> rfl
  · rw [List.mem_singleton] at h
    rw [h]
    rfl

theorem function_of_mem_leafD (h : e ∈ leafD host mask) : e.function = 0xd := by
  rcases List.mem_cons.1 h with rfl | h
  · rfl
  rcases List.mem_cons.1 h with rfl | h
  · rfl
  · exact (function_of_mem_leafDComponents h).1

/-- Where the table has its features from. -/
theorem mem_buildTable (hf : e.function = 1 ∨ e.function = 7 ∨ e.function = 0xd) :
    e ∈ buildTable host baseline numCpus ↔ e = plainEntry 1
          (leaf1 (host.cpuid 1 0) (.forBaseline baseline) numCpus) ∨
        (host.maxLeaf ≥ 7 ∧ e ∈ leaf7Entries host (.forBaseline baseline)) ∨
        (host.maxLeaf ≥ 0xd ∧ e ∈ leafD host (.forBaseline baseline)) := by
  simp only [buildTable, sortEntries, List.mem_mergeSort, List.mem_append,
    List.mem_cons, List.not_mem_nil, or_false, List.mem_ite_nil_right]
  constructor
  · -- the leaves without features have another function
    have hplain : ∀ {k : Nat} {r : Regs}, e = plainEntry k r → e.function = k := fun h => h ▸ rfl
    rintro (((((((((h | h) | h) | h) | h) | h) | h) | h) | h) | h)
    · rcases h with h | h
      · have := hplain h
        omega
      · exact .inl h
    · have := hplain h.2
      omega
    · have := function_of_mem_leaf4Entries h.2.2
      omega
    · have := hplain h.2
      omega
    · have := hplain h.2
      omega
    · exact .inr (.inl h)
    · obtain ⟨r, -, rfl⟩ := List.mem_map.1 h.2
      exact absurd hf (by simp [indexEntry])
    · exact .inr (.inr h)
    · have := hplain h.2
      omega
    · have := le_function_of_mem_extendedEntries h
      omega
  · rintro (h | h | h)
    · simp [h]
    · simp [h]
    · simp [h]

variable {table : CpuidTable}

theorem mem_entries {extra : List CpuidEntry}
    (h : buildFrom host baseline extra numCpus = some table) :
    e ∈ table.entries ↔ e ∈ buildTable host baseline (max numCpus 1) ∨ e ∈ extra := by
  unfold buildFrom at h
  split at h
  · cases h
  cases h
  split
  case isTrue hnil => simp [hnil]
  case isFalse => simp [sortEntries]

-- ==== what is not compared

/-- The XCR0 components a host offers a guest. -/
def offeredXcr0 (host : CpuidSource) (baseline : CpuBaseline) : BitVec 64 :=
  if host.maxLeaf ≥ 0xd then guestXcr0 host (.forBaseline baseline) else 0

/-- What a host offers a guest of the first subleaf of leaf 7. -/
def offeredLeaf71 (host : CpuidSource) (baseline : CpuBaseline) : Regs :=
  if host.maxLeaf ≥ 7 ∧ (host.cpuid 7 0).eax.toNat ≥ 1 then
    let one := host.cpuid 7 1
    { one with
      eax := one.eax &&& ~~~(FeatureMask.forBaseline baseline).leaf71Eax }
  else ⟨0, 0, 0, 0⟩

/-- The destination has what the preamble does not carry: the first subleaf
of leaf 7, leaf 0xD itself, the high half of XCR0, and a system that has
enabled the components. -/
structure Uncompared (src dst : CpuidSource) (bs bd : CpuBaseline) :
    Prop where
  leaf71 : ∀ reg ∈ [Regs.eax, Regs.ebx, Regs.ecx, Regs.edx],
    BitsIn (reg (offeredLeaf71 src bs)) (reg (offeredLeaf71 dst bd))
  leafD : offeredXcr0 src bs ≠ 0 → dst.maxLeaf ≥ 0xd
  high : BitsIn (offeredXcr0 src bs >>> 32) ((dst.cpuid 0xd 0).edx.setWidth 64)
  enabled : BitsIn (offeredXcr0 src bs) (dst.enabledXcr0.getD (BitVec.allOnes 64))

-- ==== the leaves

section Leaves

/-- Leaf 7 in the table. -/
def leaf7Zero (host : CpuidSource) (mask : FeatureMask) : CpuidEntry :=
  indexEntry 7 0 ⟨(host.cpuid 7 0).eax, (host.cpuid 7 0).ebx &&& ~~~mask.leaf7Ebx,
      (host.cpuid 7 0).ecx &&& ~~~mask.leaf7Ecx,
      (host.cpuid 7 0).edx &&& ~~~mask.leaf7Edx⟩

theorem mem_leaf7Entries_zero (hi : e.index = 0) :
    e ∈ leaf7Entries host mask ↔ e = leaf7Zero host mask := by
  unfold leaf7Entries
  dsimp only
  split
  · rw [List.mem_cons, List.mem_singleton]
    refine ⟨fun h => h.resolve_right fun h1 => ?_, .inl⟩
    rw [h1] at hi
    cases hi
  · exact List.mem_singleton

theorem mem_leaf7Entries_one (hi : e.index = 1) :
    host.maxLeaf ≥ 7 ∧ e ∈ leaf7Entries host (.forBaseline baseline) ↔
      (host.maxLeaf ≥ 7 ∧ (host.cpuid 7 0).eax.toNat ≥ 1) ∧
        e = indexEntry 7 1 (offeredLeaf71 host baseline) := by
  rw [and_assoc]
  refine and_congr_right fun hmax => ?_
  unfold leaf7Entries offeredLeaf71
  dsimp only
  split
  case isTrue hone =>
    rw [List.mem_cons, List.mem_singleton, if_pos ⟨hmax, hone⟩]
    refine ⟨fun h => ⟨hone, h.resolve_left fun h0 => ?_⟩, fun h => .inr h.2⟩
    rw [h0] at hi
    cases hi
  case isFalse hone =>
    refine ⟨fun h => ?_, fun h => absurd h.1 hone⟩
    rw [List.mem_singleton.1 h] at hi
    cases hi

/-- Leaf 0xD in the table. -/
def leafDZero (host : CpuidSource) (mask : FeatureMask) : CpuidEntry :=
  let xcr0 := guestXcr0 host mask
  let one := host.cpuid 0xd 1
  indexEntry 0xd 0 ⟨xcr0.setWidth 32, (host.cpuid 0xd 0).ebx,
    (leafDComponents host xcr0 (join64 one.edx one.ecx) 62 2 576).2,
    (xcr0 >>> 32).setWidth 32⟩

theorem leafDZero_eax : (leafDZero host mask).regs.eax.getLsbD i = true ↔
      i < 32 ∧ (guestXcr0 host mask).getLsbD i = true := by
  simp [leafDZero, indexEntry, BitVec.getLsbD_setWidth]

theorem leafDZero_edx : (leafDZero host mask).regs.edx.getLsbD i = true ↔
      i < 32 ∧ (guestXcr0 host mask).getLsbD (32 + i) = true := by
  simp [leafDZero, indexEntry, BitVec.getLsbD_setWidth]

theorem mem_leafD_zero (hi : e.index = 0) : e ∈ leafD host mask ↔ e = leafDZero host mask := by
  refine List.mem_cons.trans ⟨fun h => h.resolve_right fun h => ?_, .inl⟩
  rcases List.mem_cons.1 h with h | h
  · rw [h] at hi
    cases hi
  · have := (function_of_mem_leafDComponents h).2
    omega

variable {high low : BitVec 32}

theorem join64_low (h : i < 32) : (join64 high low).getLsbD i = low.getLsbD i := by
  unfold join64
  rw [BitVec.getLsbD_or, BitVec.getLsbD_shiftLeft, BitVec.getLsbD_setWidth]
  simp [h, show i < 64 by omega]

theorem join64_high (i : Nat) : (join64 high low).getLsbD (32 + i) = high.getLsbD i := by
  unfold join64
  rw [BitVec.getLsbD_or, BitVec.getLsbD_shiftLeft, BitVec.getLsbD_setWidth,
    BitVec.getLsbD_setWidth, BitVec.getLsbD_of_ge low (32 + i) (by omega),
    Nat.add_sub_cancel_left]
  by_cases hi : i < 32
  · simp [show 32 + i < 64 by omega, show i < 64 by omega]
  · simp [BitVec.getLsbD_of_ge high i (by omega)]

/-- A component is offered when the processor has it, the baseline leaves it
and the system has enabled it. -/
theorem guestXcr0_bit : (guestXcr0 host mask).getLsbD i = true ↔
      (join64 (host.cpuid 0xd 0).edx (host.cpuid 0xd 0).eax).getLsbD i = true ∧
        mask.xcr0.getLsbD i = false ∧
        (host.enabledXcr0.getD (BitVec.allOnes 64)).getLsbD i = true := by
  unfold guestXcr0
  cases host.enabledXcr0 with
  | none =>
    rw [and_not_bit, Option.getD_none]
    refine and_congr_right fun h => ?_
    have hlt := BitVec.lt_of_getLsbD h
    rw [BitVec.getLsbD_allOnes]
    exact (and_iff_left (decide_eq_true hlt)).symm
  | some enabled =>
    rw [BitVec.getLsbD_and, Bool.and_eq_true, and_not_bit, Option.getD_some, and_assoc]

/-- No baseline masks the high half. -/
theorem forBaseline_high (baseline : CpuBaseline) (i : Nat) :
    (FeatureMask.forBaseline baseline).xcr0.getLsbD (32 + i) = false := by
  have hzero : (FeatureMask.forBaseline baseline).xcr0 >>> 32 = 0 := by
    cases baseline <;> decide
  have hi := congrArg (BitVec.getLsbD · i) hzero
  simpa [BitVec.getLsbD_ushiftRight] using hi

variable {numCpus bit : Nat} {reg : Regs → BitVec 32}

theorem shown_leaf1 : Shown (buildTable host baseline numCpus) 1 0 reg bit ↔
      (reg (leaf1 (host.cpuid 1 0) (.forBaseline baseline) numCpus)).getLsbD bit = true := by
  constructor
  · rintro ⟨e, he, hf, -, hbit⟩
    rcases (mem_buildTable (.inl hf)).1 he with rfl | ⟨-, he⟩ | ⟨-, he⟩
    · exact hbit
    · have := function_of_mem_leaf7Entries he
      omega
    · have := function_of_mem_leafD he
      omega
  · exact fun h => ⟨_, (mem_buildTable (.inl rfl)).2 (.inl rfl), rfl, rfl, h⟩

theorem mem_buildTable_leaf7 (hf : e.function = 7) : e ∈ buildTable host baseline numCpus ↔
      host.maxLeaf ≥ 7 ∧ e ∈ leaf7Entries host (.forBaseline baseline) := by
  rw [mem_buildTable (.inr (.inl hf))]
  refine ⟨?_, fun h => .inr (.inl h)⟩
  rintro (rfl | h | ⟨-, he⟩)
  · cases hf
  · exact h
  · have := function_of_mem_leafD he
    omega

theorem shown_leaf7 : Shown (buildTable host baseline numCpus) 7 0 reg bit ↔ host.maxLeaf ≥ 7 ∧
        (reg (leaf7Zero host (.forBaseline baseline)).regs).getLsbD bit =
          true := by
  constructor
  · rintro ⟨e, he, hf, hi, hbit⟩
    obtain ⟨hmax, he⟩ := (mem_buildTable_leaf7 hf).1 he
    rw [(mem_leaf7Entries_zero hi).1 he] at hbit
    exact ⟨hmax, hbit⟩
  · rintro ⟨hmax, hbit⟩
    exact ⟨_, (mem_buildTable_leaf7 rfl).2
      ⟨hmax, (mem_leaf7Entries_zero rfl).2 rfl⟩, rfl, rfl, hbit⟩

theorem shown_leaf71 : Shown (buildTable host baseline numCpus) 7 1 reg bit ↔
      (host.maxLeaf ≥ 7 ∧ (host.cpuid 7 0).eax.toNat ≥ 1) ∧
        (reg (offeredLeaf71 host baseline)).getLsbD bit = true := by
  constructor
  · rintro ⟨e, he, hf, hi, hbit⟩
    obtain ⟨hhas, rfl⟩ :=
      (mem_leaf7Entries_one hi).1 ((mem_buildTable_leaf7 hf).1 he)
    exact ⟨hhas, hbit⟩
  · rintro ⟨hhas, hbit⟩
    exact ⟨_, (mem_buildTable_leaf7 rfl).2
      ((mem_leaf7Entries_one rfl).2 ⟨hhas, rfl⟩), rfl, rfl, hbit⟩

theorem shown_leafD : Shown (buildTable host baseline numCpus) 0xd 0 reg bit ↔ host.maxLeaf ≥ 0xd ∧
        (reg (leafDZero host (.forBaseline baseline)).regs).getLsbD bit =
          true := by
  constructor
  · rintro ⟨e, he, hf, hi, hbit⟩
    rcases (mem_buildTable (.inr (.inr hf))).1 he with
      rfl | ⟨-, he⟩ | ⟨hmax, he⟩
    · cases hf
    · have := function_of_mem_leaf7Entries he
      omega
    · rw [(mem_leafD_zero hi).1 he] at hbit
      exact ⟨hmax, hbit⟩
  · rintro ⟨hmax, hbit⟩
    exact ⟨_, (mem_buildTable (.inr (.inr rfl))).2
      (.inr (.inr ⟨hmax, (mem_leafD_zero rfl).2 rfl⟩)), rfl, rfl, hbit⟩

end Leaves

section Compared

variable {src dst : CpuidSource} {bs bd : CpuBaseline}

/-- What a check without an override says about the six words. -/
structure Compared (src dst : CpuFeatures) : Prop where
  leaf1Ecx : BitsIn src.leaf1Ecx dst.leaf1Ecx
  leaf1Edx : BitsIn src.leaf1Edx dst.leaf1Edx
  leaf7Ebx : BitsIn src.leaf7Ebx dst.leaf7Ebx
  leaf7Ecx : BitsIn src.leaf7Ecx dst.leaf7Ecx
  leaf7Edx : BitsIn src.leaf7Edx dst.leaf7Edx
  xcr0 : BitsIn src.xcr0 dst.xcr0

theorem compared_of_check {out : Outside} {config : DestConfig}
    {p : MigrationPreamble} {f : CpuFeatures}
    (hf : p.cpuFeatures = some f)
    (hallow : config.allowCpuFeatureMismatch = false)
    (h : checkPreamble out config p = .ok ()) :
    Compared f config.cpuFeatures ∧ p.numCpus = config.numCpus := by
  unfold checkPreamble at h
  by_cases hcpus : p.numCpus = config.numCpus
  · by_cases hmem : p.memSize = config.memSize
    · simp only [hf, hallow, hcpus, hmem, ne_eq, not_true_eq_false, ↓reduceIte] at h
      cases htop : checkTopology out p.devices config.devices with
      | error e =>
        rw [htop] at h
        cases h
      | ok u =>
        rw [htop] at h
        by_cases hgap : missing f config.cpuFeatures = ⟨0, 0, 0, 0, 0, 0⟩
        · refine ⟨?_, hcpus⟩
          exact
            { leaf1Ecx := congrArg CpuFeatures.leaf1Ecx hgap
              leaf1Edx := congrArg CpuFeatures.leaf1Edx hgap
              leaf7Ebx := congrArg CpuFeatures.leaf7Ebx hgap
              leaf7Ecx := congrArg CpuFeatures.leaf7Ecx hgap
              leaf7Edx := congrArg CpuFeatures.leaf7Edx hgap
              xcr0 := congrArg CpuFeatures.xcr0 hgap }
        · simp only [hgap, Bool.false_eq_true, ↓reduceIte] at h
          cases h
    · simp only [hcpus, hmem, ne_eq, not_true_eq_false, not_false_eq_true, ↓reduceIte] at h
      cases h
  · simp only [hcpus, ne_eq, not_false_eq_true, ↓reduceIte] at h
    cases h

variable (hc : Compared (localFeatures src bs) (localFeatures dst bd))
  (hu : Uncompared src dst bs bd)

variable {numCpus : Nat}

include hc in
theorem leaf1_ecx_shown (h : (leaf1 (src.cpuid 1 0) (.forBaseline bs) numCpus).ecx.getLsbD i) :
    (leaf1 (dst.cpuid 1 0) (.forBaseline bd) numCpus).ecx.getLsbD i := by
  simp only [leaf1, or_bit, and_not_bit, ← Bool.not_eq_true] at h ⊢
  refine h.imp_left fun ⟨hbit, hclear⟩ => ?_
  have hdst := hc.leaf1Ecx.bit (i := i)
    (and_not_bit.2 ⟨hbit, by simpa using fun hm => hclear (.inr hm)⟩)
  obtain ⟨hbit', hmask'⟩ := and_not_bit.1 hdst
  refine ⟨hbit', ?_⟩
  rintro (hhidden | hm)
  · exact hclear (.inl hhidden)
  · rw [hmask'] at hm
    cases hm

include hc in
theorem leaf1_edx_shown (h : (leaf1 (src.cpuid 1 0) (.forBaseline bs) numCpus).edx.getLsbD i) :
    (leaf1 (dst.cpuid 1 0) (.forBaseline bd) numCpus).edx.getLsbD i := by
  simp only [leaf1, or_bit, and_not_bit] at h ⊢
  exact h.imp_left fun ⟨hbit, hclear⟩ => ⟨hc.leaf1Edx.bit hbit, hclear⟩

/-- The words of leaf 7 that are compared are those of the table. -/
theorem localFeatures_leaf7 (host : CpuidSource) (baseline : CpuBaseline) :
    ((localFeatures host baseline).leaf7Ebx = if host.maxLeaf ≥ 7 then
        (leaf7Zero host (.forBaseline baseline)).regs.ebx else 0) ∧
    ((localFeatures host baseline).leaf7Ecx = if host.maxLeaf ≥ 7 then
        (leaf7Zero host (.forBaseline baseline)).regs.ecx else 0) ∧
    (localFeatures host baseline).leaf7Edx = if host.maxLeaf ≥ 7 then
        (leaf7Zero host (.forBaseline baseline)).regs.edx else 0 := by
  simp only [localFeatures, queryHostFeatures, leaf7Zero, indexEntry]
  split
  · exact ⟨rfl, rfl, rfl⟩
  · simp

variable {reg : Regs → BitVec 32}

/-- A word of leaf 7 that is compared: a host without the leaf has none of
its bits. -/
theorem leaf7_shown {f : CpuFeatures → BitVec 32}
    (hf : ∀ host baseline, f (localFeatures host baseline) = if host.maxLeaf ≥ 7
      then reg (leaf7Zero host (.forBaseline baseline)).regs else 0)
    (hin : BitsIn (f (localFeatures src bs)) (f (localFeatures dst bd)))
    (hmax : src.maxLeaf ≥ 7)
    (h : (reg (leaf7Zero src (.forBaseline bs)).regs).getLsbD i) :
    dst.maxLeaf ≥ 7 ∧ (reg (leaf7Zero dst (.forBaseline bd)).regs).getLsbD i := by
  rw [hf, hf, if_pos hmax] at hin
  have hbit := hin.bit h
  split at hbit
  case isTrue hmax' => exact ⟨hmax', hbit⟩
  case isFalse => simp at hbit

include hu in
theorem leaf71_shown (hreg : reg ∈ [Regs.eax, Regs.ebx, Regs.ecx, Regs.edx])
    (h : (reg (offeredLeaf71 src bs)).getLsbD i) :
    (dst.maxLeaf ≥ 7 ∧ (dst.cpuid 7 0).eax.toNat ≥ 1) ∧ (reg (offeredLeaf71 dst bd)).getLsbD i := by
  have hbit := (hu.leaf71 reg hreg).bit h
  refine ⟨?_, hbit⟩
  by_contra habsent
  have hzero : reg (offeredLeaf71 dst bd) = 0 := by
    unfold offeredLeaf71
    rw [if_neg habsent]
    simp only [List.mem_cons, List.not_mem_nil, or_false] at hreg
    rcases hreg with rfl | rfl | rfl | rfl <;> rfl
  rw [hzero] at hbit
  simp at hbit

include hc hu in
/-- A component the source offers is one the destination offers. -/
theorem xcr0_shown (hmax : src.maxLeaf ≥ 0xd)
    (h : (guestXcr0 src (.forBaseline bs)).getLsbD i = true) :
    dst.maxLeaf ≥ 0xd ∧ (guestXcr0 dst (.forBaseline bd)).getLsbD i = true := by
  have hoffered : offeredXcr0 src bs = guestXcr0 src (.forBaseline bs) :=
    if_pos hmax
  have hne : offeredXcr0 src bs ≠ 0 := by
    rw [hoffered]
    intro hzero
    rw [hzero] at h
    simp at h
  have hmax' := hu.leafD hne
  refine ⟨hmax', ?_⟩
  have henabled := hu.enabled.bit (i := i) (by rw [hoffered]; exact h)
  obtain ⟨hcpu, hmask, -⟩ := guestXcr0_bit.1 h
  rw [guestXcr0_bit]
  rcases Nat.lt_or_ge i 32 with hi | hi
  · -- the low half is the compared word
    have hxcr0 := hc.xcr0
    simp only [localFeatures, queryHostFeatures, if_pos hmax, if_pos hmax'] at hxcr0
    rw [join64_low hi] at hcpu ⊢
    have hword := hxcr0.bit (i := i) (and_not_bit.2 ⟨hcpu, by
      rw [BitVec.getLsbD_setWidth, hmask, Bool.and_false]⟩)
    obtain ⟨hcpu', hmask'⟩ := and_not_bit.1 hword
    rw [BitVec.getLsbD_setWidth, decide_eq_true hi, Bool.true_and] at hmask'
    exact ⟨hcpu', hmask', henabled⟩
  · obtain ⟨j, rfl⟩ := Nat.exists_eq_add_of_le hi
    have hhigh := hu.high.bit (i := j) (by
      rw [BitVec.getLsbD_ushiftRight, hoffered]
      exact h)
    rw [join64_high]
    refine ⟨?_, forBaseline_high bd j, henabled⟩
    rw [BitVec.getLsbD_setWidth, Bool.and_eq_true] at hhigh
    exact hhigh.2

include hc hu in
theorem buildTable_shown {func index bit : Nat} (hfeat : IsFeature func index reg)
    (h : Shown (buildTable src bs numCpus) func index reg bit) :
    Shown (buildTable dst bd numCpus) func index reg bit := by
  cases hfeat with
  | leaf1Ecx =>
    rw [shown_leaf1] at h ⊢
    exact leaf1_ecx_shown hc h
  | leaf1Edx =>
    rw [shown_leaf1] at h ⊢
    exact leaf1_edx_shown hc h
  | leaf7Ebx =>
    rw [shown_leaf7] at h ⊢
    exact leaf7_shown (fun host baseline =>
      (localFeatures_leaf7 host baseline).1) hc.leaf7Ebx h.1 h.2
  | leaf7Ecx =>
    rw [shown_leaf7] at h ⊢
    exact leaf7_shown (fun host baseline =>
      (localFeatures_leaf7 host baseline).2.1) hc.leaf7Ecx h.1 h.2
  | leaf7Edx =>
    rw [shown_leaf7] at h ⊢
    exact leaf7_shown (fun host baseline =>
      (localFeatures_leaf7 host baseline).2.2) hc.leaf7Edx h.1 h.2
  | leaf71Eax | leaf71Ebx | leaf71Ecx | leaf71Edx =>
    rw [shown_leaf71] at h ⊢
    exact leaf71_shown hu (by simp) h.2
  | xcr0Low =>
    rw [shown_leafD] at h ⊢
    obtain ⟨hlt, hbit⟩ := leafDZero_eax.1 h.2
    obtain ⟨hmax, hbit'⟩ := xcr0_shown hc hu h.1 hbit
    exact ⟨hmax, leafDZero_eax.2 ⟨hlt, hbit'⟩⟩
  | xcr0High =>
    rw [shown_leafD] at h ⊢
    obtain ⟨hlt, hbit⟩ := leafDZero_edx.1 h.2
    obtain ⟨hmax, hbit'⟩ := xcr0_shown hc hu h.1 hbit
    exact ⟨hmax, leafDZero_edx.2 ⟨hlt, hbit'⟩⟩

omit hc hu in
/-- Tables that keep every feature: the destination has what the preamble
does not carry. -/
theorem uncompared_of_shown (numCpus numCpus' : Nat)
    (h : ∀ {func index : Nat} {reg : Regs → BitVec 32},
      IsFeature func index reg → func = 7 ∨ func = 0xd → ∀ bit,
      Shown (buildTable src bs numCpus) func index reg bit →
      Shown (buildTable dst bd numCpus') func index reg bit) :
    Uncompared src dst bs bd := by
  have hxcr0 (i : Nat) (hi : (offeredXcr0 src bs).getLsbD i = true) :
      dst.maxLeaf ≥ 0xd ∧
        (guestXcr0 dst (.forBaseline bd)).getLsbD i = true := by
    have hmax : src.maxLeaf ≥ 0xd := by
      by_contra hno
      rw [offeredXcr0, if_neg hno] at hi
      simp at hi
    rw [offeredXcr0, if_pos hmax] at hi
    rcases Nat.lt_or_ge i 32 with hlow | hhigh
    · obtain ⟨hmax', hbit⟩ := shown_leafD.1 (h .xcr0Low (.inr rfl) i
        (shown_leafD.2 ⟨hmax, leafDZero_eax.2 ⟨hlow, hi⟩⟩))
      exact ⟨hmax', (leafDZero_eax.1 hbit).2⟩
    · obtain ⟨j, rfl⟩ := Nat.exists_eq_add_of_le hhigh
      have hlt := BitVec.lt_of_getLsbD hi
      obtain ⟨hmax', hbit⟩ := shown_leafD.1 (h .xcr0High (.inr rfl) j
        (shown_leafD.2 ⟨hmax, leafDZero_edx.2 ⟨by omega, hi⟩⟩))
      exact ⟨hmax', (leafDZero_edx.1 hbit).2⟩
  have hleaf71 {reg : Regs → BitVec 32} (hfeat : IsFeature 7 1 reg)
      (hzero : reg ⟨0, 0, 0, 0⟩ = 0) :
      BitsIn (reg (offeredLeaf71 src bs)) (reg (offeredLeaf71 dst bd)) := by
    refine .of_bits fun i hi => ?_
    have hhas : src.maxLeaf ≥ 7 ∧ (src.cpuid 7 0).eax.toNat ≥ 1 := by
      by_contra hno
      rw [offeredLeaf71, if_neg hno, hzero] at hi
      simp at hi
    have hshown := h hfeat (.inl rfl) i (shown_leaf71.2 ⟨hhas, hi⟩)
    exact (shown_leaf71.1 hshown).2
  refine ⟨?_, fun hne => ?_, .of_bits fun i hi => ?_, .of_bits fun i hi => ?_⟩
  · simp only [List.forall_mem_cons]
    exact ⟨hleaf71 .leaf71Eax rfl, hleaf71 .leaf71Ebx rfl,
      hleaf71 .leaf71Ecx rfl, hleaf71 .leaf71Edx rfl, nofun⟩
  · by_contra hno
    refine hne (BitVec.eq_of_getLsbD_eq fun i _ => ?_)
    have hclear : ¬ (offeredXcr0 src bs).getLsbD i = true :=
      fun hi => hno (hxcr0 i hi).1
    simpa using hclear
  · rw [BitVec.getLsbD_ushiftRight] at hi
    have hlt := BitVec.lt_of_getLsbD hi
    have hcpu := (guestXcr0_bit.1 (hxcr0 _ hi).2).1
    rw [join64_high] at hcpu
    rw [BitVec.getLsbD_setWidth, hcpu, Bool.and_true]
    exact decide_eq_true (by omega)
  · exact (guestXcr0_bit.1 (hxcr0 i hi).2).2.2

end Compared

-- ==== the check

/-- Extra entries that name other leaves do not matter. -/
theorem shown_entries {func index bit : Nat} {reg : Regs → BitVec 32}
    {extra : List CpuidEntry}
    (h : buildFrom host baseline extra numCpus = some table)
    (hextra : ∀ e ∈ extra, e.function ≠ func) :
    Shown table.entries func index reg bit ↔
      Shown (buildTable host baseline (max numCpus 1)) func index reg bit := by
  constructor
  · rintro ⟨e, he, hf, hshown⟩
    refine ⟨e, ((mem_entries h).1 he).resolve_right fun hx => ?_, hf, hshown⟩
    exact hextra e hx hf
  · rintro ⟨e, he, hshown⟩
    exact ⟨e, (mem_entries h).2 (.inl he), hshown⟩

/-- The XCR0 components a table without extra entries shows. -/
theorem shown_xcr0 {vcpuid bit : Nat} (h : buildFrom host baseline [] numCpus = some table) :
    Shown (table.entriesFor vcpuid) 0xd 0 Regs.eax bit ↔ host.maxLeaf ≥ 0xd ∧ bit < 32 ∧
        (guestXcr0 host (.forBaseline baseline)).getLsbD bit = true := by
  rw [shown_entriesFor .xcr0Low, shown_entries h nofun, shown_leafD,
    leafDZero_eax]

/-- Every feature bit of leaf 1 and leaf 7 and every XCR0 component the
first table shows a vCPU is shown by the second. -/
def Kept (tableS tableD : CpuidTable) : Prop :=
  ∀ {func index : Nat} {reg : Regs → BitVec 32}, IsFeature func index reg →
    ∀ vcpuid bit, Shown (tableS.entriesFor vcpuid) func index reg bit →
      Shown (tableD.entriesFor vcpuid) func index reg bit

section Check

variable {src dst : CpuidSource} {bs bd : CpuBaseline}
  {extra : List CpuidEntry} {out : Outside} {config : DestConfig}
  {p : MigrationPreamble} {tableS tableD : CpuidTable}

/-- If the preamble check passes without an override, and the destination
has what the preamble does not carry, then the destination's table keeps the
features the source's table shows. Unless the extra entries name leaf 7 or
leaf 0xD themselves, it keeps them only then. -/
theorem features_kept
    (hsrc : buildFrom src bs extra p.numCpus = some tableS)
    (hdst : buildFrom dst bd extra config.numCpus = some tableD)
    (hp : p.cpuFeatures = some (localFeatures src bs))
    (hconfig : config.cpuFeatures = localFeatures dst bd)
    (hallow : config.allowCpuFeatureMismatch = false)
    (hcheck : checkPreamble out config p = .ok ()) :
    (Uncompared src dst bs bd → Kept tableS tableD) ∧
    ((∀ e ∈ extra, e.function ≠ 7 ∧ e.function ≠ 0xd) →
      Kept tableS tableD → Uncompared src dst bs bd) := by
  constructor
  · intro hu func index reg hfeat vcpuid bit h
    obtain ⟨hc, hcpus⟩ := compared_of_check hp hallow hcheck
    rw [hconfig] at hc
    rw [shown_entriesFor hfeat] at h ⊢
    obtain ⟨e, he, hf, hi, hbit⟩ := h
    rcases (mem_entries hsrc).1 he with he | he
    · obtain ⟨e', he', hshown⟩ :=
        buildTable_shown hc hu hfeat ⟨e, he, hf, hi, hbit⟩
      rw [hcpus] at he'
      exact ⟨e', (mem_entries hdst).2 (.inl he'), hshown⟩
    · exact ⟨e, (mem_entries hdst).2 (.inr he), hf, hi, hbit⟩
  · intro hextra hkept
    refine uncompared_of_shown (max p.numCpus 1) (max config.numCpus 1)
      fun {func _ _} hfeat hfunc bit h => ?_
    have hother : ∀ e ∈ extra, e.function ≠ func := by
      rcases hfunc with rfl | rfl
      · exact fun e he => (hextra e he).1
      · exact fun e he => (hextra e he).2
    have hshown := hkept hfeat 0 bit
    rw [shown_entriesFor hfeat, shown_entriesFor hfeat,
      shown_entries hsrc hother, shown_entries hdst hother] at hshown
    exact hshown h

end Check

/-- A small host: leaf 0xD with these components, and these enabled. -/
def sampleHost (xcr0 enabled : BitVec 32) : CpuidSource where
  cpuid
    | 0, _ => ⟨0xd, 0, 0, 0⟩
    | 1, _ => ⟨0, 0, bits32 [26, 27, 28], 0⟩
    | 0xd, 0 => ⟨xcr0, 0, 0, 0⟩
    | _, _ => ⟨0, 0, 0, 0⟩
  enabledXcr0 := some (enabled.setWidth 64)

/-- The preamble of a source with these features, for a guest of one vCPU. -/
def samplePreamble (features : CpuFeatures) : MigrationPreamble where
  numCpus := 1
  memSize := 0
  devices := []
  cpuFeatures := some features

def sampleConfig (features : CpuFeatures) : DestConfig where
  numCpus := 1
  memSize := 0
  cpuFeatures := features
  devices := []
  allowCpuFeatureMismatch := false

/-- The sample check compares the features and nothing else. -/
theorem checkPreamble_sample {f g : CpuFeatures} (h : missing f g = ⟨0, 0, 0, 0, 0, 0⟩) :
    checkPreamble Session.bareOutside (sampleConfig g) (samplePreamble f) = .ok () := by
  simp only [checkPreamble, sampleConfig, samplePreamble, checkTopology, h]
  rfl

/-- The AVX state goes over to a host that has AVX-512 as well. -/
theorem features_kept_avx :
    ∃ tableS tableD,
      buildFrom (sampleHost 7 7) .avx2 [] 1 = some tableS ∧
      buildFrom (sampleHost 0xe7 0xe7) .avx2 [] 1 = some tableD ∧
      Shown (tableS.entriesFor 0) 0xd 0 Regs.eax 2 ∧
      Shown (tableD.entriesFor 0) 0xd 0 Regs.eax 2 := by
  obtain ⟨tableS, hS⟩ : ∃ table, buildFrom (sampleHost 7 7) .avx2
      [] (samplePreamble (localFeatures (sampleHost 7 7) .avx2)).numCpus =
        some table := ⟨_, rfl⟩
  obtain ⟨tableD, hD⟩ : ∃ table, buildFrom (sampleHost 0xe7 0xe7)
      .avx2 [] (sampleConfig (localFeatures (sampleHost 0xe7 0xe7)
        .avx2)).numCpus = some table := ⟨_, rfl⟩
  have hcheck := checkPreamble_sample
    (f := localFeatures (sampleHost 7 7) .avx2)
    (g := localFeatures (sampleHost 0xe7 0xe7) .avx2) (by decide)
  have hu : Uncompared (sampleHost 7 7) (sampleHost 0xe7 0xe7) .avx2 .avx2 :=
    ⟨by decide, by decide, by decide,
      by decide⟩
  have hshown : Shown (tableS.entriesFor 0) 0xd 0 Regs.eax 2 :=
    (shown_xcr0 hS).2 (by decide)
  exact ⟨tableS, tableD, hS, hD, hshown,
    (features_kept hS hD rfl rfl rfl hcheck).1 hu .xcr0Low 0 2 hshown⟩

/-- Two hosts with the same processor, of which the second has not enabled
the AVX state: the check passes, and the guest loses that component. -/
theorem disabled_component_lost :
    ∃ tableS tableD,
      buildFrom (sampleHost 7 7) .avx2 [] 1 = some tableS ∧
      buildFrom (sampleHost 7 3) .avx2 [] 1 = some tableD ∧
      checkPreamble Session.bareOutside
        (sampleConfig (localFeatures (sampleHost 7 3) .avx2))
        (samplePreamble (localFeatures (sampleHost 7 7) .avx2)) = .ok () ∧
      Shown (tableS.entriesFor 0) 0xd 0 Regs.eax 2 ∧
      ¬ Shown (tableD.entriesFor 0) 0xd 0 Regs.eax 2 := by
  obtain ⟨tableS, hS⟩ : ∃ table,
      buildFrom (sampleHost 7 7) .avx2 [] 1 = some table := ⟨_, rfl⟩
  obtain ⟨tableD, hD⟩ : ∃ table,
      buildFrom (sampleHost 7 3) .avx2 [] 1 = some table := ⟨_, rfl⟩
  refine ⟨tableS, tableD, hS, hD, checkPreamble_sample (by decide),
    (shown_xcr0 hS).2 (by decide), ?_⟩
  rw [shown_xcr0 hD]
  decide

end Rshyve.Migrate
