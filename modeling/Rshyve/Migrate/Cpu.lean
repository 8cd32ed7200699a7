/-
# The CPUID table and what a migration compares of it

`vmm-core/src/cpuid.rs` and `vmm-migrate/src/cpu.rs`: the table a VM programs
its vCPUs with, built from a host and a baseline, and the feature bits a
preamble carries.

A host is what it answers to a CPUID query, and the XCR0 bits its system has
enabled (`CpuidSource`). The counts and APIC identifiers in the table are as
the source computes them; none of them is a feature.
-/
import Rshyve.Migrate.Codec

namespace Rshyve.Migrate

-- ==== the host

/-- CPU baseline profiles for migration compatibility. -/
inductive CpuBaseline where
  /-- no masking: the host's features as they are -/
  | host
  /-- mask out AVX-512 and related features -/
  | avx2
  /-- also mask out AVX2, FMA, BMI1/2 and other features -/
  | sse42
  deriving DecidableEq, Repr

/-- The four registers one CPUID query returns. -/
structure Regs where
  eax : BitVec 32
  ebx : BitVec 32
  ecx : BitVec 32
  edx : BitVec 32
  deriving DecidableEq, Repr

/-- A source of CPUID answers. -/
structure CpuidSource where
  cpuid : Nat → Nat → Regs
  /-- the XCR0 bits the host has enabled, or `none` where that cannot be
  read; the kernel only lets a guest use those -/
  enabledXcr0 : Option (BitVec 64)

def CpuidSource.maxLeaf (host : CpuidSource) : Nat :=
  (host.cpuid 0 0).eax.toNat

/-- One bit of a register. -/
def bit32 (i : Nat) : BitVec 32 := 1#32 <<< i

/-- The bits of a register at these places. -/
def bits32 (is : List Nat) : BitVec 32 :=
  is.foldl (fun acc i => acc ||| bit32 i) 0

def bits64 (is : List Nat) : BitVec 64 :=
  is.foldl (fun acc i => acc ||| 1#64 <<< i) 0

-- ==== masks

/-- The feature bits a baseline takes away from the host. -/
structure FeatureMask where
  leaf1Ecx : BitVec 32 := 0
  leaf7Ebx : BitVec 32 := 0
  leaf7Ecx : BitVec 32 := 0
  leaf7Edx : BitVec 32 := 0
  leaf71Eax : BitVec 32 := 0
  xcr0 : BitVec 64 := 0
  deriving DecidableEq, Repr

def leaf7EbxAvx512 : BitVec 32 := bits32 [16, 17, 21, 26, 27, 28, 30, 31]
def leaf7EcxAvx512 : BitVec 32 := bits32 [1, 6, 11, 12, 14]
def leaf7EdxAvx512Amx : BitVec 32 := bits32 [2, 3, 8, 23, 24, 25]
/-- Leaf 7.1 EAX: AVX-VNNI, AVX-512_BF16 and AVX-IFMA. -/
def leaf71EaxVector : BitVec 32 := bits32 [4, 5, 23]
/-- The XCR0 components with a fixed place in the legacy area. -/
def xcr0Legacy : BitVec 64 := bits64 [0, 1]
def xcr0Avx : BitVec 64 := bits64 [2]
def xcr0Avx512 : BitVec 64 := bits64 [5, 6, 7]
def xcr0Amx : BitVec 64 := bits64 [17, 18]

def FeatureMask.forBaseline : CpuBaseline → FeatureMask
  | .host => {}
  | .avx2 =>
    { leaf7Ebx := leaf7EbxAvx512
      leaf7Ecx := leaf7EcxAvx512
      leaf7Edx := leaf7EdxAvx512Amx
      leaf71Eax := leaf71EaxVector
      xcr0 := xcr0Avx512 ||| xcr0Amx }
  | .sse42 =>
    -- AVX, FMA, F16C and RDRAND; BMI1, AVX2 and BMI2
    { leaf1Ecx := bits32 [28, 12, 29, 30]
      leaf7Ebx := leaf7EbxAvx512 ||| bits32 [3, 5, 8]
      leaf7Ecx := leaf7EcxAvx512
      leaf7Edx := leaf7EdxAvx512Amx
      leaf71Eax := leaf71EaxVector
      xcr0 := xcr0Avx ||| xcr0Avx512 ||| xcr0Amx }

-- ==== leaves

/-- `vcpu_cpuid_entry`. -/
structure CpuidEntry where
  function : Nat
  index : Nat
  /-- `VCE_FLAG_MATCH_INDEX` -/
  matchIdx : Bool
  regs : Regs
  deriving DecidableEq, Repr

/-- An entry that answers every index. -/
def plainEntry (func : Nat) (regs : Regs) : CpuidEntry := ⟨func, 0, false, regs⟩

/-- An entry for one index. -/
def indexEntry (func index : Nat) (regs : Regs) : CpuidEntry :=
  ⟨func, index, true, regs⟩

def isIntel (r : Regs) : Bool :=
  r.ebx = 0x756e6547 ∧ r.edx = 0x49656e69 ∧ r.ecx = 0x6c65746e

/-- `ceil(log2(n))`: `n.next_power_of_two().trailing_zeros()`. -/
def idWidth (n : Nat) : Nat := if n ≤ 1 then 0 else (n - 1).log2 + 1

/-- MONITOR, VMX, SMX, EST, TM2, PDCM and TSC-deadline. -/
def leaf1EcxHidden : BitVec 32 := bits32 [3, 5, 6, 7, 8, 15, 24]
def leaf1EcxHypervisor : BitVec 32 := bit32 31
/-- DS, ACPI and TM. -/
def leaf1EdxHidden : BitVec 32 := bits32 [21, 22, 29]
/-- MCA, MCE, MTRR and HTT. -/
def leaf1EdxForced : BitVec 32 := bits32 [14, 7, 12, 28]

def leaf1 (r : Regs) (mask : FeatureMask) (numCpus : Nat) : Regs where
  eax := r.eax
  ebx := (r.ebx &&& 0xffff) ||| ((BitVec.ofNat 32 numCpus &&& 0xff) <<< 16)
  ecx := (r.ecx &&& ~~~(leaf1EcxHidden ||| mask.leaf1Ecx))
    ||| leaf1EcxHypervisor
  edx := (r.edx &&& ~~~leaf1EdxHidden) ||| leaf1EdxForced

/-- Leaf 4 with this VM's sharing. -/
def leaf4 (r : Regs) (numCpus : Nat) : Regs :=
  let level := (r.eax >>> 5) &&& 7
  let sharing : BitVec 32 :=
    if level.toNat ≥ 3 then .ofNat 32 (numCpus - 1) else 0
  { r with
    eax := (r.eax &&& 0x3ff) ||| (sharing <<< 14)
      ||| (BitVec.ofNat 32 (numCpus - 1) <<< 26) }

/-- `for idx in 0..8`, from `idx` on, up to the first empty type. -/
def leaf4Entries (host : CpuidSource) (numCpus : Nat) : Nat → Nat → List CpuidEntry
  | 0, _ => []
  | n + 1, idx =>
    let regs := host.cpuid 4 idx
    if regs.eax &&& 0x1f = 0 then []
    else indexEntry 4 idx (leaf4 regs numCpus) :: leaf4Entries host numCpus n (idx + 1)

def leafB (numCpus vcpuid : Nat) : List Regs :=
  [⟨0, 1, 1 <<< 8, .ofNat 32 vcpuid⟩, ⟨.ofNat 32 (idWidth numCpus), .ofNat 32 numCpus &&& 0xffff,
      (2 <<< 8) ||| 1, .ofNat 32 vcpuid⟩,
    ⟨0, 0, 2, .ofNat 32 vcpuid⟩]

def leaf80000008 (r : Regs) (numCpus : Nat) : Regs :=
  { r with
    ecx := (r.ecx &&& ~~~0xf0ff#32) ||| (BitVec.ofNat 32 (numCpus - 1) &&& 0xff)
      ||| (BitVec.ofNat 32 (idWidth numCpus) <<< 12) }

def leaf8000001e (vcpuid : Nat) : Regs :=
  ⟨.ofNat 32 vcpuid, .ofNat 32 vcpuid &&& 0xff, 0, 0⟩

/-- `u64::from(high) << 32 | u64::from(low)`. -/
def join64 (high low : BitVec 32) : BitVec 64 :=
  high.setWidth 64 <<< 32 ||| low.setWidth 64

/-- The XSAVE components a guest may enable. -/
def guestXcr0 (host : CpuidSource) (mask : FeatureMask) : BitVec 64 :=
  let r := host.cpuid 0xd 0
  let xcr0 := join64 r.edx r.eax &&& ~~~mask.xcr0
  match host.enabledXcr0 with
  | some enabled => xcr0 &&& enabled
  | none => xcr0

/-- `a.saturating_add(b)`. -/
def satAdd32 (a b : BitVec 32) : BitVec 32 :=
  if a.toNat + b.toNat < 2 ^ 32 then a + b else .allOnes 32

/-- `for bit in 2..64`, from `bit` on, with the largest area so far. -/
def leafDComponents (host : CpuidSource) (xcr0 xss : BitVec 64) :
    Nat → Nat → BitVec 32 → List CpuidEntry × BitVec 32
  | 0, _, maxSize => ([], maxSize)
  | n + 1, bit, maxSize =>
    let inXcr0 := xcr0.getLsbD bit
    if !inXcr0 && !xss.getLsbD bit then
      leafDComponents host xcr0 xss n (bit + 1) maxSize
    else
      let regs := host.cpuid 0xd bit
      if regs.eax = 0 then
        leafDComponents host xcr0 xss n (bit + 1) maxSize
      else
        let area := satAdd32 regs.ebx regs.eax
        let maxSize :=
          if inXcr0 ∧ maxSize.toNat < area.toNat then area else maxSize
        let rest := leafDComponents host xcr0 xss n (bit + 1) maxSize
        (indexEntry 0xd bit regs :: rest.1, rest.2)

/-- Leaf 0xD: the XSAVE components the guest may enable, the area they need,
and one subleaf for each of them. -/
def leafD (host : CpuidSource) (mask : FeatureMask) : List CpuidEntry :=
  let xcr0 := guestXcr0 host mask
  let one := host.cpuid 0xd 1
  let components := leafDComponents host xcr0 (join64 one.edx one.ecx) 62 2 576
  indexEntry 0xd 0 ⟨xcr0.setWidth 32, (host.cpuid 0xd 0).ebx, components.2,
      (xcr0 >>> 32).setWidth 32⟩
    :: indexEntry 0xd 1 one :: components.1

-- ==== table

/-- `vcpu_cpuid_entry::eval_sort`: entries that match an index come first. -/
def evalSort (a b : CpuidEntry) : Ordering :=
  (compare a.function b.function).then (match a.matchIdx, b.matchIdx with
    | true, false => .lt
    | false, true => .gt
    | _, _ => compare a.index b.index)

def sortEntries (entries : List CpuidEntry) : List CpuidEntry :=
  entries.mergeSort fun a b => (evalSort a b).isLE

/-- Leaf 7 and its first subleaf. -/
def leaf7Entries (host : CpuidSource) (mask : FeatureMask) : List CpuidEntry :=
  let r := host.cpuid 7 0
  let zero := indexEntry 7 0 ⟨r.eax, r.ebx &&& ~~~mask.leaf7Ebx, r.ecx &&& ~~~mask.leaf7Ecx,
      r.edx &&& ~~~mask.leaf7Edx⟩
  if r.eax.toNat ≥ 1 then
    let one := host.cpuid 7 1
    [zero, indexEntry 7 1 { one with eax := one.eax &&& ~~~mask.leaf71Eax }]
  else [zero]

/-- The leaves from 0x8000_0000 on. -/
def extendedEntries (host : CpuidSource) (intel : Bool) (numCpus : Nat) : List CpuidEntry :=
  let maxExt := (host.cpuid 0x80000000 0).eax
  let upTo (leaf : Nat) (es : List CpuidEntry) : List CpuidEntry :=
    if maxExt.toNat ≥ leaf then es else []
  [plainEntry 0x80000000 ⟨maxExt, 0, 0, 0⟩] ++ ([1, 2, 3, 4, 5, 6, 7].flatMap fun i =>
      upTo (0x80000000 + i) [plainEntry (0x80000000 + i) (host.cpuid (0x80000000 + i) 0)])
    ++ upTo 0x80000008 [plainEntry 0x80000008 (leaf80000008 (host.cpuid 0x80000008 0) numCpus)]
    ++ (if intel then [] else
      upTo 0x8000001e [plainEntry 0x8000001e (leaf8000001e 0)])

def buildTable (host : CpuidSource) (baseline : CpuBaseline) (numCpus : Nat) : List CpuidEntry :=
  let mask := FeatureMask.forBaseline baseline
  let leaf0 := host.cpuid 0 0
  let intel := isIntel leaf0
  let upTo (leaf : Nat) (es : List CpuidEntry) : List CpuidEntry :=
    if host.maxLeaf ≥ leaf then es else []
  sortEntries ([plainEntry 0 leaf0, plainEntry 1 (leaf1 (host.cpuid 1 0) mask numCpus)]
      ++ (if intel then [plainEntry 2 (host.cpuid 2 0)] else [])
      ++ (if intel then upTo 4 (leaf4Entries host numCpus 8 0) else [])
      ++ upTo 5 [plainEntry 5 (host.cpuid 5 0)]
      ++ upTo 6 [plainEntry 6 (host.cpuid 6 0)]
      ++ upTo 7 (leaf7Entries host mask)
      ++ upTo 0xb ((leafB numCpus 0).zipIdx.map fun (r, i) =>
        indexEntry 0xb i r)
      ++ upTo 0xd (leafD host mask)
      ++ upTo 0x16 [plainEntry 0x16 (host.cpuid 0x16 0)]
      ++ extendedEntries host intel numCpus)

/-- The CPUID table one VM programs. -/
structure CpuidTable where
  entries : List CpuidEntry
  /-- `VCC_FLAG_INTEL_FALLBACK` -/
  intelFallback : Bool
  deriving DecidableEq, Repr

/-- `build_from`. `none` is a pure native passthrough: the kernel answers
CPUID from the host. -/
def CpuidTable.buildFrom (host : CpuidSource) (baseline : CpuBaseline)
    (extra : List CpuidEntry) (numCpus : Nat) : Option CpuidTable :=
  if baseline = .host ∧ extra = [] then none
  else
    let entries := buildTable host baseline (max numCpus 1)
    some
      { entries :=
          if extra = [] then entries else sortEntries (entries ++ extra)
        intelFallback := isIntel (host.cpuid 0 0) }

/-- One entry with the APIC identifiers of `vcpuid`
(`specialize_for_vcpu`). -/
def CpuidEntry.specialize (vcpuid : Nat) (e : CpuidEntry) : CpuidEntry :=
  if e.function = 1 then
    { e with regs := { e.regs with
        ebx := (e.regs.ebx &&& 0xffffff)
          ||| ((BitVec.ofNat 32 vcpuid &&& 0xff) <<< 24) } }
  else if e.function = 0xb then
    { e with regs := { e.regs with edx := .ofNat 32 vcpuid } }
  else if e.function = 0x8000001e then
    { e with regs := leaf8000001e vcpuid }
  else e

/-- The entries `vcpuid` is programmed with. -/
def CpuidTable.entriesFor (table : CpuidTable) (vcpuid : Nat) : List CpuidEntry :=
  table.entries.map (.specialize vcpuid)

-- ==== features

/-- `query_host_features`, on any host. -/
def queryHostFeatures (host : CpuidSource) : CpuFeatures :=
  let one := host.cpuid 1 0
  let seven : Regs :=
    if host.maxLeaf ≥ 7 then host.cpuid 7 0 else ⟨0, 0, 0, 0⟩
  { leaf1Ecx := one.ecx
    leaf1Edx := one.edx
    leaf7Ebx := seven.ebx
    leaf7Ecx := seven.ecx
    leaf7Edx := seven.edx
    xcr0 :=
      if host.maxLeaf ≥ 0xd then (host.cpuid 0xd 0).eax
      else xcr0Legacy.setWidth 32 }

/-- `query_masked_features`, as `local_features` hands it on. -/
def localFeatures (host : CpuidSource) (baseline : CpuBaseline) : CpuFeatures :=
  let f := queryHostFeatures host
  let mask := FeatureMask.forBaseline baseline
  { leaf1Ecx := f.leaf1Ecx &&& ~~~mask.leaf1Ecx
    leaf1Edx := f.leaf1Edx
    leaf7Ebx := f.leaf7Ebx &&& ~~~mask.leaf7Ebx
    leaf7Ecx := f.leaf7Ecx &&& ~~~mask.leaf7Ecx
    leaf7Edx := f.leaf7Edx &&& ~~~mask.leaf7Edx
    xcr0 := f.xcr0 &&& ~~~mask.xcr0.setWidth 32 }

end Rshyve.Migrate
