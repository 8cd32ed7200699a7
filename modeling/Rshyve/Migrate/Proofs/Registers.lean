/-
# Register blobs

What `parse_vcpu_regs` accepts: runs of register entries, followed by the
marker, the count and that many descriptor entries (`blobOf`), or by nothing
at all. The second form is not one the export writes, and the parser takes
it because its loop also ends where an entry does.

A blob in the first form is delimited by its count, so nothing shorter and
nothing longer has that form.
-/
import Rshyve.Migrate.State

namespace Rshyve.Migrate

open Bytes

-- ==== identifiers

theorem VmRegName.toNat_lt (reg : VmRegName) : reg.toNat < 47 := by
  cases reg <;> decide

variable {reg : VmRegName}

theorem regFromId_toNat (vcpuid : Int) (h : reg ≠ .last) :
    regFromId vcpuid reg.toNat = .ok reg := by
  cases reg <;> first | rfl | contradiction

theorem toNat_getElem : ∀ i : Fin vmRegNames.length, vmRegNames[i].1.toNat = i := by
  decide

theorem VmRegName.fromRepr_eq_some {i : Int} (h : fromRepr i = some reg) : i = reg.toNat := by
  cases i with
  | negSucc n => cases h
  | ofNat n =>
    obtain ⟨⟨reg', name⟩, hget, rfl⟩ := Option.map_eq_some_iff.1 h
    obtain ⟨hn, hget⟩ := List.getElem?_eq_some_iff.1 hget
    have hi := toNat_getElem ⟨n, hn⟩
    rw [Fin.getElem_fin, hget] at hi
    exact congrArg Int.ofNat hi.symm

variable {vcpuid : Int} {bs : List UInt8} {out : List RegWrite} {regs : List (VmRegName × UInt64)}

theorem regFromId_ok {id : Nat} (hid : id < 256 ^ 4)
    (h : regFromId vcpuid id = .ok reg) : reg ≠ .last ∧ id = reg.toNat := by
  unfold regFromId at h
  split at h
  · cases h
  · cases h
  case h_3 reg' hlast hrepr =>
    cases h
    have hi := VmRegName.fromRepr_eq_some hrepr
    unfold asI32 at hi
    refine ⟨fun hl => hlast (hl ▸ rfl), ?_⟩
    -- the upper half of the identifiers is negative as an `i32`
    split at hi <;> omega

-- ==== blobs

/-- A run of register entries. -/
def regsBytes (regs : List (VmRegName × UInt64)) : List UInt8 :=
  regs.flatMap fun r => regEntry r.1 r.2

/-- A run of descriptor entries. -/
def segsBytes (segs : List (VmRegName × SegDesc)) : List UInt8 :=
  segs.flatMap fun s => segEntry s.1 s.2

/-- The format of a register blob. -/
def blobOf (regs : List (VmRegName × UInt64)) (segs : List (VmRegName × SegDesc)) : List UInt8 :=
  regsBytes regs ++ (le 4 segMarker ++ (le 8 segs.length ++ segsBytes segs))

/-- Every entry names a register. -/
def Named {α : Type} (entries : List (VmRegName × α)) : Prop :=
  ∀ e ∈ entries, e.1 ≠ .last

/-- The writes a blob stands for. -/
def writesOf (regs : List (VmRegName × UInt64))
    (segs : List (VmRegName × SegDesc)) : List RegWrite :=
  regs.map (fun r => .reg r.1 r.2) ++ segs.map fun s => .seg s.1 s.2

/-- The descriptors are of a number whose bytes a `usize` counts. -/
def Countable (segs : List (VmRegName × SegDesc)) : Prop :=
  segs.length * segEntryLen < 2 ^ 64

/-- The bytes are a blob in the documented format. -/
def WellShaped (data : List UInt8) : Prop :=
  ∃ regs segs, Named regs ∧ Named segs ∧ Countable segs ∧ data = blobOf regs segs

/-- The bytes are register entries and nothing else: no marker, no
descriptors. -/
def RegistersOnly (data : List UInt8) : Prop :=
  ∃ regs, Named regs ∧ data = regsBytes regs

@[simp] theorem regEntry_length (reg : VmRegName) (v : UInt64) :
    (regEntry reg v).length = 12 := by
  simp [regEntry]

@[simp] theorem segEntry_length (reg : VmRegName) (d : SegDesc) :
    (segEntry reg d).length = 20 := by
  simp [segEntry]

theorem segsBytes_length (segs : List (VmRegName × SegDesc)) :
    (segsBytes segs).length = segs.length * segEntryLen := by
  induction segs with
  | nil => rfl
  | cons s segs ih =>
    rw [segsBytes, List.flatMap_cons, List.length_append, segEntry_length,
      ← segsBytes, ih, List.length_cons, Nat.succ_mul, Nat.add_comm]
    rfl

variable {α : Type}

theorem Named.cons {e : VmRegName × α}
    {es : List (VmRegName × α)} (he : e.1 ≠ .last) (hes : Named es) :
    Named (e :: es) :=
  List.forall_mem_cons.2 ⟨he, hes⟩

-- ==== reading

theorem bytesAt_append (a b c : List UInt8) {off n : Nat}
    (hoff : a.length = off) (hn : b.length = n) :
    bytesAt (a ++ (b ++ c)) off n = some b := by
  subst hoff hn
  rw [bytesAt_of_le (by simp), List.drop_left, List.take_left]

theorem le_ofLe_take {n : Nat} (h : n ≤ bs.length) : le n (ofLe (bs.take n)) = bs.take n := by
  have hlen : (bs.take n).length = n := by rw [List.length_take]; omega
  have hle := le_ofLe (bs.take n)
  rwa [hlen] at hle

theorem ofLe_take_lt {n : Nat} (bs : List UInt8) : ofLe (bs.take n) < 256 ^ n :=
  Nat.lt_of_lt_of_le (ofLe_lt _) (Nat.pow_le_pow_right (by decide) (List.length_take_le n bs))

theorem field_append (bs : List UInt8) (off n : Nat) :
    (bs.drop off).take n ++ bs.drop (off + n) = bs.drop off := by
  rw [← List.drop_drop, List.take_append_drop]

theorem ofLe_reg (reg : VmRegName) : ofLe (le 4 reg.toNat) = reg.toNat :=
  ofLe_le_of_lt (Nat.lt_trans reg.toNat_lt (by decide))

theorem ofLe_u64 (v : UInt64) : UInt64.ofNat (ofLe (le 8 v.toNat)) = v := by
  rw [ofLe_le_of_lt v.toNat_lt, UInt64.ofNat_toNat]

theorem ofLe_u32 (v : UInt32) : UInt32.ofNat (ofLe (le 4 v.toNat)) = v := by
  rw [ofLe_le_of_lt v.toNat_lt, UInt32.ofNat_toNat]

theorem le_u64 (h : 8 ≤ bs.length) : le 8 (UInt64.ofNat (ofLe (bs.take 8))).toNat = bs.take 8 := by
  have hlt : ofLe (bs.take 8) < 2 ^ 64 := ofLe_take_lt bs
  rw [UInt64.toNat_ofNat', Nat.mod_eq_of_lt hlt, le_ofLe_take h]

theorem le_u32 (h : 4 ≤ bs.length) : le 4 (UInt32.ofNat (ofLe (bs.take 4))).toNat = bs.take 4 := by
  have hlt : ofLe (bs.take 4) < 2 ^ 32 := ofLe_take_lt bs
  rw [UInt32.toNat_ofNat', Nat.mod_eq_of_lt hlt, le_ofLe_take h]

-- ==== descriptors

theorem bytesAt_segEntry (reg : VmRegName) (d : SegDesc) (c : List UInt8) :
    bytesAt (segEntry reg d ++ c) 0 4 = some (le 4 reg.toNat) ∧
      bytesAt (segEntry reg d ++ c) 4 8 = some (le 8 d.base.toNat) ∧
      bytesAt (segEntry reg d ++ c) 12 4 = some (le 4 d.limit.toNat) ∧
      bytesAt (segEntry reg d ++ c) 16 4 = some (le 4 d.access.toNat) := by
  unfold segEntry
  refine ⟨?_, ?_, ?_, ?_⟩
  · rw [List.append_assoc, List.append_assoc, List.append_assoc]
    exact bytesAt_append [] _ _ rfl (le_length _ _)
  · rw [List.append_assoc, List.append_assoc, List.append_assoc]
    exact bytesAt_append _ _ _ (by simp) (by simp)
  · rw [List.append_assoc, List.append_assoc]
    exact bytesAt_append _ _ _ (by simp) (by simp)
  · rw [List.append_assoc]
    exact bytesAt_append _ _ _ (by simp) (by simp)

theorem parseSegs_entry (vcpuid : Int) (hreg : reg ≠ .last) (d : SegDesc)
    (count : Nat) (rest : List UInt8) (out : List RegWrite) :
    parseSegs vcpuid (count + 1) (segEntry reg d ++ rest) out =
      parseSegs vcpuid count rest (out ++ [.seg reg d]) := by
  obtain ⟨hid, hbase, hlimit, haccess⟩ := bytesAt_segEntry reg d rest
  rw [parseSegs, hid, hbase, hlimit, haccess]
  simp only [Option.bind_eq_bind, Option.bind_some, ofLe_reg,
    regFromId_toNat vcpuid hreg, ofLe_u64, ofLe_u32]
  rw [List.drop_left' (i := segEntryLen) (segEntry_length reg d)]

variable {segs : List (VmRegName × SegDesc)}

theorem parseSegs_segsBytes (vcpuid : Int) (h : Named segs) (out : List RegWrite) :
    parseSegs vcpuid segs.length (segsBytes segs) out =
      some (.ok (out ++ segs.map fun s => .seg s.1 s.2)) := by
  induction segs generalizing out with
  | nil => simp [parseSegs]
  | cons s segs ih =>
    obtain ⟨hs, hsegs⟩ := List.forall_mem_cons.1 h
    rw [segsBytes, List.flatMap_cons, ← segsBytes, List.length_cons,
      parseSegs_entry vcpuid hs, ih hsegs, List.map_cons,
      List.append_assoc, List.singleton_append]

variable {rest : List UInt8}

/-- A descriptor's bytes, read back as the entry they are. -/
theorem eq_segEntry_append (hlen : 20 ≤ rest.length)
    (hid : ofLe ((rest.drop 0).take 4) = reg.toNat) :
    rest = segEntry reg ⟨.ofNat (ofLe ((rest.drop 4).take 8)),
      .ofNat (ofLe ((rest.drop 12).take 4)),
      .ofNat (ofLe ((rest.drop 16).take 4))⟩ ++ rest.drop 20 := by
  have hfour : le 4 reg.toNat = rest.take 4 := by
    rw [← hid]
    exact le_ofLe_take (show 4 ≤ rest.length by omega)
  unfold segEntry
  rw [le_u64 (by rw [List.length_drop]; omega), le_u32 (by rw [List.length_drop]; omega),
    le_u32 (by rw [List.length_drop]; omega), hfour,
    List.append_assoc, List.append_assoc, List.append_assoc]
  rw [field_append rest 16 4, field_append rest 12 4, field_append rest 4 8, List.take_append_drop]

variable {ws : List RegWrite}

theorem parseSegs_ok {count : Nat} (hlen : rest.length = count * segEntryLen)
    (h : parseSegs vcpuid count rest out = some (.ok ws)) :
    ∃ segs, Named segs ∧ segs.length = count ∧ rest = segsBytes segs ∧
      ws = out ++ segs.map fun s => .seg s.1 s.2 := by
  induction count generalizing rest out with
  | zero =>
    rw [Nat.zero_mul, List.length_eq_zero_iff] at hlen
    cases h
    exact ⟨[], by simp [Named], rfl, hlen, by simp⟩
  | succ count ih =>
    have hentry : segEntryLen = 20 := rfl
    rw [Nat.succ_mul] at hlen
    rw [parseSegs, bytesAt_of_le (by omega), bytesAt_of_le (by omega),
      bytesAt_of_le (by omega), bytesAt_of_le (by omega)] at h
    simp only [Option.bind_eq_bind, Option.bind_some] at h
    split at h
    · cases h
    case h_2 reg hreg =>
      obtain ⟨hlast, hid⟩ := regFromId_ok (ofLe_take_lt _) hreg
      have hdrop : (rest.drop segEntryLen).length = count * segEntryLen := by
        rw [List.length_drop]
        omega
      obtain ⟨segs, hnamed, rfl, hbytes, rfl⟩ := ih hdrop h
      refine ⟨(reg, _) :: segs, hnamed.cons hlast, rfl, ?_, List.append_assoc _ _ _⟩
      rw [segsBytes, List.flatMap_cons, ← segsBytes, ← hbytes]
      exact eq_segEntry_append (by omega) hid

/-- The descriptors of a blob, with whatever stands behind them. -/
theorem parseDescs_append (vcpuid : Int) (hnamed : Named segs)
    (hcount : Countable segs) (tail : List UInt8) (out : List RegWrite) :
    parseDescs vcpuid (le 4 segMarker ++ (le 8 segs.length ++ (segsBytes segs ++ tail))) out =
      if tail = [] then
        some (.ok (out ++ segs.map fun s => .seg s.1 s.2))
      else
        some (.error (vcpuError vcpuid (toString segs.length ++ " segment descriptors need "
            ++ toString (segs.length * segEntryLen) ++ " bytes, "
            ++ toString (segs.length * segEntryLen + tail.length)
            ++ " left"))) := by
  have hlt : segs.length < 256 ^ 8 :=
    Nat.lt_of_le_of_lt (Nat.le_mul_of_pos_right _ (by decide)) hcount
  unfold Countable at hcount
  have hdrop : (le 4 segMarker ++ (le 8 segs.length ++
      (segsBytes segs ++ tail))).drop 12 = segsBytes segs ++ tail := by
    rw [← List.append_assoc]
    exact List.drop_left' (by simp)
  unfold parseDescs
  rw [if_neg (by simp only [List.length_append, le_length]; omega),
    bytesAt_append _ _ _ (le_length _ _) (le_length _ _),
    hdrop]
  simp only [Option.bind_eq_bind, Option.bind_some, ofLe_le_of_lt hlt, segsLen,
    if_pos hcount, List.length_append, segsBytes_length]
  by_cases htail : tail = []
  · rw [if_pos htail, htail, List.append_nil, if_neg (by simp)]
    exact parseSegs_segsBytes vcpuid hnamed out
  · have hpos : 0 < tail.length := List.length_pos_iff.2 htail
    rw [if_neg htail, if_pos (by omega)]

theorem parseDescs_ok (hlen : 4 ≤ rest.length) (hid : ofLe ((rest.drop 0).take 4) = segMarker)
    (h : parseDescs vcpuid rest out = some (.ok ws)) :
    ∃ segs, Named segs ∧ Countable segs ∧ rest = blobOf [] segs ∧
      ws = out ++ segs.map fun s => .seg s.1 s.2 := by
  unfold parseDescs at h
  split at h
  · cases h
  case isFalse hlen =>
    rw [bytesAt_of_le (by omega)] at h
    simp only [Option.bind_eq_bind, Option.bind_some] at h
    split at h
    · cases h
    case h_2 want hwant =>
      unfold segsLen at hwant
      split at hwant
      · cases hwant
        split at h
        · cases h
        case isFalse hcount hwant =>
          rw [ne_eq, not_not] at hwant
          obtain ⟨segs, hnamed, hn, hbytes, rfl⟩ := parseSegs_ok hwant h
          rw [← hn] at hcount
          refine ⟨segs, hnamed, hcount, ?_, rfl⟩
          have hmarker : le 4 segMarker = rest.take 4 := by
            rw [← hid]
            exact le_ofLe_take (show 4 ≤ rest.length by omega)
          unfold blobOf
          rw [← hbytes, hn, hmarker, le_ofLe_take (by rw [List.length_drop]; omega),
            field_append rest 4 8, List.take_append_drop]
          rfl
      · cases hwant

-- ==== the loop

theorem parseLoop_entry (vcpuid : Int) (hreg : reg ≠ .last) (v : UInt64)
    (fuel : Nat) (rest : List UInt8) (out : List RegWrite) :
    parseLoop vcpuid (fuel + 1) (regEntry reg v ++ rest) out =
      parseLoop vcpuid fuel rest (out ++ [.reg reg v]) := by
  have hlen : (regEntry reg v ++ rest).length = 12 + rest.length := by simp
  have hid : bytesAt (regEntry reg v ++ rest) 0 4 = some (le 4 reg.toNat) := by
    rw [regEntry, List.append_assoc]
    exact bytesAt_append [] _ _ rfl (le_length _ _)
  have hvalue : bytesAt (regEntry reg v ++ rest) 4 8 = some (le 8 v.toNat) := by
    rw [regEntry, List.append_assoc]
    exact bytesAt_append _ _ _ (le_length _ _) (le_length _ _)
  have hmarker : reg.toNat ≠ segMarker := by
    have hlt := reg.toNat_lt
    unfold segMarker
    omega
  have hentry : regEntryLen = 12 := rfl
  rw [parseLoop, if_neg (by omega), if_neg (by omega), hid, hvalue]
  simp only [Option.bind_eq_bind, Option.bind_some, ofLe_reg]
  rw [if_pos hmarker, if_neg (by omega), regFromId_toNat vcpuid hreg, ofLe_u64,
    List.drop_left' (i := regEntryLen) (regEntry_length reg v)]

theorem parseLoop_regsBytes (vcpuid : Int) (h : Named regs) (fuel : Nat)
    (rest : List UInt8) (out : List RegWrite) :
    parseLoop vcpuid (regs.length + fuel) (regsBytes regs ++ rest) out = parseLoop vcpuid fuel rest
        (out ++ regs.map fun r => .reg r.1 r.2) := by
  induction regs generalizing out with
  | nil => simp [regsBytes]
  | cons r regs ih =>
    obtain ⟨hr, hregs⟩ := List.forall_mem_cons.1 h
    rw [regsBytes, List.flatMap_cons, ← regsBytes, List.length_cons,
      Nat.add_right_comm, List.append_assoc, parseLoop_entry vcpuid hr,
      ih hregs, List.map_cons, List.append_assoc, List.singleton_append]

/-- At the marker the loop leaves the rest to the descriptors. -/
theorem parseLoop_marker (vcpuid fuel) (rest : List UInt8) (out : List RegWrite) :
    parseLoop vcpuid (fuel + 1) (le 4 segMarker ++ rest) out =
      parseDescs vcpuid (le 4 segMarker ++ rest) out := by
  have hlen : (le 4 segMarker ++ rest).length = 4 + rest.length := by simp
  have hid : bytesAt (le 4 segMarker ++ rest) 0 4 = some (le 4 segMarker) :=
    bytesAt_append [] _ _ rfl (le_length _ _)
  rw [parseLoop, if_neg (by omega), if_neg (by omega), hid]
  simp only [Option.bind_eq_bind, Option.bind_some]
  rw [if_neg (not_not.2 (ofLe_le_of_lt (by decide)))]

/-- A register's bytes, read back as the entry they are. -/
theorem eq_regEntry_append (hlen : 12 ≤ rest.length)
    (hid : ofLe ((rest.drop 0).take 4) = reg.toNat) :
    rest = regEntry reg (.ofNat (ofLe ((rest.drop 4).take 8))) ++ rest.drop 12 := by
  have hfour : le 4 reg.toNat = rest.take 4 := by
    rw [← hid]
    exact le_ofLe_take (show 4 ≤ rest.length by omega)
  unfold regEntry
  rw [le_u64 (by rw [List.length_drop]; omega), hfour, List.append_assoc,
    field_append rest 4 8, List.take_append_drop]

theorem parseLoop_ok {fuel : Nat} (h : parseLoop vcpuid fuel rest out = some (.ok ws)) :
    ∃ regs, Named regs ∧ ((rest = regsBytes regs ∧ ws = out ++ regs.map fun r => .reg r.1 r.2) ∨
        ∃ segs, Named segs ∧ Countable segs ∧ rest = blobOf regs segs ∧
          ws = out ++ writesOf regs segs) := by
  induction fuel generalizing rest out with
  | zero => cases h
  | succ fuel ih =>
    have hentry : regEntryLen = 12 := rfl
    unfold parseLoop at h
    split at h
    case isTrue hnil =>
      cases h
      exact ⟨[], by simp [Named], .inl ⟨List.length_eq_zero_iff.1 hnil, by simp⟩⟩
    split at h
    · cases h
    rw [bytesAt_of_le (by omega)] at h
    simp only [Option.bind_eq_bind, Option.bind_some] at h
    split at h
    · split at h
      · cases h
      rw [bytesAt_of_le (by omega), Option.bind_some] at h
      split at h
      · cases h
      case h_2 reg hreg =>
        obtain ⟨hlast, hid⟩ := regFromId_ok (ofLe_take_lt _) hreg
        have hrest := eq_regEntry_append (by omega) hid
        generalize UInt64.ofNat (ofLe ((rest.drop 4).take 8)) = v at h hrest
        obtain ⟨regs, hnamed, hend⟩ := ih h
        refine ⟨(reg, v) :: regs, hnamed.cons hlast, ?_⟩
        rcases hend with ⟨hbytes, rfl⟩ | ⟨segs, hsegs, hcount, hblob, rfl⟩
        · refine .inl ⟨?_, List.append_assoc _ _ _⟩
          rw [regsBytes, List.flatMap_cons, ← regsBytes, ← hbytes]
          exact hrest
        · refine .inr ⟨segs, hsegs, hcount, ?_, List.append_assoc _ _ _⟩
          rw [blobOf, regsBytes, List.flatMap_cons, ← regsBytes,
            List.append_assoc, ← blobOf, ← hblob]
          exact hrest
    case isFalse hid =>
      obtain ⟨segs, hnamed, hcount, hrest, hws⟩ :=
        parseDescs_ok (by omega) (not_not.1 hid) h
      exact ⟨[], by simp [Named], .inr ⟨segs, hnamed, hcount, hrest, by simpa [writesOf] using hws⟩⟩

-- ==== the parser

theorem regsBytes_length (regs : List (VmRegName × UInt64)) :
    (regsBytes regs).length = regs.length * regEntryLen := by
  induction regs with
  | nil => rfl
  | cons r regs ih =>
    rw [regsBytes, List.flatMap_cons, ← regsBytes, List.length_append,
      regEntry_length, List.length_cons, ih, Nat.succ_mul, Nat.add_comm]
    rfl

/-- The parser reads up to the descriptors, and they have to be the rest. -/
theorem parseVcpuRegs_append (vcpuid : Int) (hregs : Named regs)
    (hsegs : Named segs) (hcount : Countable segs) (tail : List UInt8) :
    parseVcpuRegs vcpuid (blobOf regs segs ++ tail) =
      if tail = [] then some (.ok (writesOf regs segs))
      else
        some (.error (vcpuError vcpuid (toString segs.length ++ " segment descriptors need "
            ++ toString (segs.length * segEntryLen) ++ " bytes, "
            ++ toString (segs.length * segEntryLen + tail.length)
            ++ " left"))) := by
  have hfuel : ∃ fuel, (blobOf regs segs ++ tail).length + 1 = regs.length + (fuel + 1) := by
    refine ⟨(blobOf regs segs ++ tail).length - regs.length, ?_⟩
    rw [List.length_append, blobOf, List.length_append, regsBytes_length]
    unfold regEntryLen
    omega
  obtain ⟨fuel, hfuel⟩ := hfuel
  rw [parseVcpuRegs, hfuel, blobOf, List.append_assoc,
    parseLoop_regsBytes vcpuid hregs, List.append_assoc, parseLoop_marker,
    List.append_assoc, parseDescs_append vcpuid hsegs hcount]
  rfl

theorem parseVcpuRegs_ok {data : List UInt8} (h : parseVcpuRegs vcpuid data = some (.ok ws))
    (hfull : ¬ RegistersOnly data) :
    ∃ regs segs, Named regs ∧ Named segs ∧ Countable segs ∧
      data = blobOf regs segs ∧ ws = writesOf regs segs := by
  obtain ⟨regs, hregs, ⟨hdata, -⟩ | ⟨segs, hsegs, hcount, hdata, hws⟩⟩ :=
    parseLoop_ok h
  · exact absurd ⟨regs, hregs, hdata⟩ hfull
  · exact ⟨regs, segs, hregs, hsegs, hcount, hdata, hws⟩

/-- Nothing shorter than a blob is a blob. -/
theorem not_wellShaped_of_append {data : List UInt8} (more : List UInt8)
    (hmore : more ≠ []) (h : WellShaped (data ++ more)) :
    ¬ WellShaped data := by
  rintro ⟨regs, segs, hregs, hsegs, hcount, rfl⟩
  obtain ⟨regs', segs', hregs', hsegs', hcount', heq⟩ := h
  have hshort := parseVcpuRegs_append 0 hregs hsegs hcount more
  have hwhole := parseVcpuRegs_append 0 hregs' hsegs' hcount' []
  rw [List.append_nil, ← heq, if_pos rfl] at hwhole
  rw [hwhole, if_neg hmore] at hshort
  cases hshort

/-- Register entries alone are accepted. -/
theorem parseVcpuRegs_regsBytes (vcpuid : Int) (hregs : Named regs) :
    parseVcpuRegs vcpuid (regsBytes regs) =
      some (.ok (regs.map fun r => .reg r.1 r.2)) := by
  have hfuel : (regsBytes regs).length + 1 =
      regs.length + ((regsBytes regs).length - regs.length + 1) := by
    rw [regsBytes_length]
    unfold regEntryLen
    omega
  have hloop := parseLoop_regsBytes vcpuid hregs
    ((regsBytes regs).length - regs.length + 1) [] []
  rw [List.append_nil, ← hfuel] at hloop
  exact hloop

/-- And they are no blob: the marker is missing. -/
theorem not_wellShaped_regsBytes (hregs : Named regs) :
    ¬ WellShaped (regsBytes regs) :=
  not_wellShaped_of_append (blobOf [] []) (by decide)
    ⟨regs, [], hregs, nofun, Nat.two_pow_pos 64, rfl⟩

-- ==== export

/-- A vCPU whose reads all succeed, with these values. -/
def Vcpu.holding (regs : VmRegName → UInt64) (segs : VmRegName → SegDesc) : Vcpu where
  getReg r := .ok (regs r)
  getSegmentDesc r := .ok (segs r)

theorem named_map {names : List VmRegName} (h : ∀ r ∈ names, r ≠ .last) (v : VmRegName → α) :
    Named (names.map fun r => (r, v r)) := by
  intro e he
  obtain ⟨r, hr, rfl⟩ := List.mem_map.1 he
  exact h r hr

/-- An accumulating loop that never fails appends what it makes of each
element. -/
theorem foldlM_append (f : α → List UInt8) (xs : List α) (acc : List UInt8) :
    xs.foldlM (fun data x => (pure (data ++ f x) : Except MigrateError _)) acc
      = .ok (acc ++ xs.flatMap f) := by
  induction xs generalizing acc with
  | nil => simp [pure, Except.pure]
  | cons x xs ih =>
    rw [List.foldlM_cons, pure_bind, ih, List.flatMap_cons, List.append_assoc]

theorem exportVcpuRegs_holding (regs : VmRegName → UInt64) (segs : VmRegName → SegDesc) :
    exportVcpuRegs (.holding regs segs) = .ok (blobOf (vcpuRegs.map fun r => (r, regs r))
        (vcpuSegDescs.map fun r => (r, segs r))) := by
  simp only [exportVcpuRegs, Vcpu.holding, Except.mapError, bind, Except.bind,
    foldlM_append, blobOf, regsBytes, segsBytes, List.flatMap_map,
    List.length_map, List.nil_append, List.append_assoc]

/-- Exported values come back from the parser. No byte string makes it
panic, and a blob with anything behind it is refused. Bytes that are not
just register entries are accepted exactly when they have the format of a
blob, as the writes they stand for; so every other such string is refused,
and among them what is left of a blob whose end is cut off. -/
theorem register_blobs (vcpuid : Int) :
    (∀ regs segs, ∃ data, exportVcpuRegs (.holding regs segs) = .ok data ∧
      WellShaped data ∧
      parseVcpuRegs vcpuid data =
        some (.ok (writesOf (vcpuRegs.map fun r => (r, regs r))
          (vcpuSegDescs.map fun r => (r, segs r))))) ∧
    (∀ data, (parseVcpuRegs vcpuid data).isSome) ∧
    (∀ data more, WellShaped data → more ≠ [] →
      ∃ e, parseVcpuRegs vcpuid (data ++ more) = some (.error e)) ∧
    ∀ data,
      ((¬ WellShaped data →
          ∃ e, parseVcpuRegs vcpuid data = some (.error e)) ↔
        ¬ RegistersOnly data) ∧
      (¬ RegistersOnly data →
        (∀ ws, parseVcpuRegs vcpuid data = some (.ok ws) ↔
          ∃ regs segs, Named regs ∧ Named segs ∧ Countable segs ∧
            data = blobOf regs segs ∧ ws = writesOf regs segs) ∧
        ∀ more, more ≠ [] → WellShaped (data ++ more) →
          ∃ e, parseVcpuRegs vcpuid data = some (.error e)) := by
  refine ⟨fun regs segs => ?_, parseVcpuRegs_isSome vcpuid, ?_, ?_⟩
  · have hregs : Named (vcpuRegs.map fun r => (r, regs r)) :=
      named_map (by decide) regs
    have hsegs : Named (vcpuSegDescs.map fun r => (r, segs r)) :=
      named_map (by decide) segs
    have hcount : Countable (vcpuSegDescs.map fun r => (r, segs r)) := by
      rw [Countable, List.length_map]
      decide
    have hparse := parseVcpuRegs_append vcpuid hregs hsegs hcount []
    rw [List.append_nil, if_pos rfl] at hparse
    exact ⟨_, exportVcpuRegs_holding regs segs,
      ⟨_, _, hregs, hsegs, hcount, rfl⟩, hparse⟩
  · rintro _ more ⟨regs, segs, hregs, hsegs, hcount, rfl⟩ hmore
    rw [parseVcpuRegs_append vcpuid hregs hsegs hcount, if_neg hmore]
    exact ⟨_, rfl⟩
  · intro data
    have hrefused : ¬ RegistersOnly data → ¬ WellShaped data →
        ∃ e, parseVcpuRegs vcpuid data = some (.error e) := by
      intro hfull hshape
      obtain ⟨r, hr⟩ := Option.isSome_iff_exists.1
        (parseVcpuRegs_isSome vcpuid data)
      cases r with
      | error e => exact ⟨e, hr⟩
      | ok ws =>
        obtain ⟨regs, segs, hregs, hsegs, hcount, hdata, -⟩ :=
          parseVcpuRegs_ok hr hfull
        exact absurd ⟨regs, segs, hregs, hsegs, hcount, hdata⟩ hshape
    refine ⟨⟨?_, hrefused⟩, fun hfull =>
      ⟨fun ws => ⟨fun h => parseVcpuRegs_ok h hfull, ?_⟩,
        fun more hmore hwhole =>
          hrefused hfull (not_wellShaped_of_append _ hmore hwhole)⟩⟩
    · -- a run of entries without the marker is accepted and is no blob
      rintro herr ⟨regs, hregs, rfl⟩
      obtain ⟨e, he⟩ := herr (not_wellShaped_regsBytes hregs)
      rw [parseVcpuRegs_regsBytes vcpuid hregs] at he
      cases he
    rintro ⟨regs, segs, hregs, hsegs, hcount, rfl, rfl⟩
    have hparse := parseVcpuRegs_append vcpuid hregs hsegs hcount []
    rwa [List.append_nil, if_pos rfl] at hparse

/-- One byte is no register entry, and is refused. -/
theorem register_blobs_one_byte :
    ¬ RegistersOnly [0] ∧ ∃ e, parseVcpuRegs 0 [0] = some (.error e) := by
  have hno : ¬ RegistersOnly [0] := by
    rintro ⟨regs, -, h⟩
    have hlen := congrArg List.length h
    rw [regsBytes_length, List.length_singleton] at hlen
    unfold regEntryLen at hlen
    omega
  refine ⟨hno, (((register_blobs 0).2.2.2 [0]).1.2 hno) ?_⟩
  rintro ⟨regs, segs, -, -, -, h⟩
  have hlen := congrArg List.length h
  simp only [blobOf, List.length_append, le_length] at hlen
  rw [List.length_singleton] at hlen
  omega

/-- The first entry of an exported blob, and so a blob with its end cut off,
is accepted as the write of one register. -/
theorem first_register_accepted :
    ∃ data more : List UInt8,
      exportVcpuRegs (.holding (fun _ => 1) fun _ => ⟨0, 0, 0⟩) =
        .ok (data ++ more) ∧ more ≠ [] ∧
      parseVcpuRegs 0 data = some (.ok [.reg .rax 1]) := by
  have hexport := exportVcpuRegs_holding (fun _ => 1) fun _ => ⟨0, 0, 0⟩
  rw [← List.take_append_drop regEntryLen (blobOf _ _)] at hexport
  exact ⟨_, _, hexport, by decide, by decide⟩

end Rshyve.Migrate
