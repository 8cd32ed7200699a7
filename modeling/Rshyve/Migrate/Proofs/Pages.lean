/-
# Pages keep their bytes and their places

The pure half of the RAM transfer: which pages a dirty bitmap names, how
they are cut into batches, and what a batch does to the destination's memory
once it has been compressed, framed, decoded and decompressed. The threads
come in with `Migrate.Proofs.Ram`.

- `mem_pages`: the iterator over a bitmap visits exactly the pages whose bit
  is set.
- `flatten_cutBatches`: cutting into batches loses no page and adds none.
- `splice_low`, `splice_here`: each chunk of a region's dirty walk fills its
  own slice of the bitmap.
- `applied_batch`: a batch the destination accepts writes the pages that
  were read, at the addresses they were read from.
-/
import Rshyve.Migrate.Pages
import Rshyve.Mem.Dirty

namespace Rshyve.Migrate

open Mem (pageSize GuestMem checkedAdd checkedAdd_some poke DirtyChunk splice bind_eq_ok)

-- ==== the iterator

namespace PageIter

/-- The scan finds the first set bit from where it stands, or there is
none. -/
theorem scan_spec {fuel : Nat} {it : PageIter} (hfuel : it.totalBits - it.bitIndex ≤ fuel) :
    (scan fuel it = none ∧ ∀ i, it.bitIndex ≤ i → i < it.totalBits → bitSet it.bitmap i = false) ∨
    (∃ j, it.bitIndex ≤ j ∧ j < it.totalBits ∧ bitSet it.bitmap j = true ∧
      (∀ i, it.bitIndex ≤ i → i < j → bitSet it.bitmap i = false) ∧
      scan fuel it = some (it.baseGpa + j * pageSize, { it with bitIndex := j + 1 })) := by
  induction fuel generalizing it with
  | zero =>
    refine .inl ⟨rfl, fun i h1 h2 => ?_⟩
    omega
  | succ fuel ih =>
    unfold scan
    by_cases hlt : it.bitIndex < it.totalBits
    · rw [if_pos hlt]
      by_cases hbit : bitSet it.bitmap it.bitIndex = true
      · simp only [hbit, if_true]
        refine .inr ⟨it.bitIndex, Nat.le_refl _, hlt, hbit, ?_, rfl⟩
        intro i h1 h2
        omega
      · rw [Bool.not_eq_true] at hbit
        simp only [hbit, Bool.false_eq_true, if_false]
        have hrest := @ih { it with bitIndex := it.bitIndex + 1 }
          (show it.totalBits - (it.bitIndex + 1) ≤ fuel by omega)
        rcases hrest with ⟨hnone, hall⟩ | ⟨j, h1, h2, hj, hall, hsome⟩
        · refine .inl ⟨hnone, fun i hi1 hi2 => ?_⟩
          by_cases hi : i = it.bitIndex
          · rw [hi]
            exact hbit
          · exact hall i (by dsimp only; omega) hi2
        · refine .inr ⟨j, by dsimp only at h1; omega, h2, hj, ?_, hsome⟩
          intro i hi1 hi2
          by_cases hi : i = it.bitIndex
          · rw [hi]
            exact hbit
          · exact hall i (by dsimp only; omega) hi2
    · rw [if_neg hlt]
      refine .inl ⟨rfl, fun i h1 h2 => ?_⟩
      omega

/-- What the iterator yields from where it stands. -/
theorem mem_drain {fuel gpa : Nat} {it : PageIter} (hfuel : it.totalBits - it.bitIndex ≤ fuel) :
    gpa ∈ drain fuel it ↔ ∃ i, it.bitIndex ≤ i ∧ i < it.totalBits ∧ bitSet it.bitmap i = true ∧
        gpa = it.baseGpa + i * pageSize := by
  induction fuel generalizing it with
  | zero =>
    refine ⟨fun h => (nomatch h), ?_⟩
    rintro ⟨i, h1, h2, -⟩
    omega
  | succ fuel ih =>
    unfold drain next
    rcases @scan_spec _ it (Nat.le_refl _) with
      ⟨hnone, hall⟩ | ⟨j, h1, h2, hj, hall, hsome⟩
    · rw [hnone]
      refine ⟨fun h => (nomatch h), ?_⟩
      rintro ⟨i, h1, h2, hi, -⟩
      rw [hall i h1 h2] at hi
      cases hi
    · rw [hsome]
      have hrest := @ih { it with bitIndex := j + 1 } (show it.totalBits - (j + 1) ≤ fuel by omega)
      rw [List.mem_cons, hrest]
      constructor
      · rintro (rfl | ⟨i, hi1, hi2, hi, rfl⟩)
        · exact ⟨j, h1, h2, hj, rfl⟩
        · exact ⟨i, by dsimp only at hi1; omega, hi2, hi, rfl⟩
      · rintro ⟨i, hi1, hi2, hi, rfl⟩
        by_cases hij : i = j
        · exact .inl (by rw [hij])
        · refine .inr ⟨i, ?_, hi2, hi, rfl⟩
          -- a set bit below `j` would have been found first
          by_cases hlt : i < j
          · rw [hall i hi1 hlt] at hi
            cases hi
          · dsimp only
            omega

theorem mem_pages {bitmap : List UInt8} {base len gpa : Nat} : gpa ∈ (new bitmap base len).pages ↔
      ∃ i, i < len / pageSize ∧ bitSet bitmap i = true ∧ gpa = base + i * pageSize := by
  unfold pages
  rw [mem_drain (Nat.le_refl _)]
  constructor
  · rintro ⟨i, -, h2, hi, rfl⟩
    exact ⟨i, h2, hi, rfl⟩
  · rintro ⟨i, h2, hi, rfl⟩
    exact ⟨i, Nat.zero_le _, h2, hi, rfl⟩

end PageIter

/-- The batches hold the pages in order, and nothing else. -/
theorem flatten_cutBatches (batch pages : List Nat) :
    (cutBatches batch pages).flatten = batch ++ pages := by
  induction pages generalizing batch with
  | nil =>
    unfold cutBatches
    cases batch with
    | nil => rfl
    | cons a as => simp
  | cons gpa rest ih =>
    unfold cutBatches
    dsimp only
    split
    · rw [List.flatten_cons, ih]
      simp
    · rw [ih]
      simp

-- ==== the bitmap's slices

variable {bitmap bits : List UInt8} {m m' : GuestMem} {pages : List (List UInt8)}

variable {c : DirtyChunk}

/-- A chunk leaves the slices before its own alone. -/
theorem splice_low {i : Nat} (hi : i / 8 < c.bitOff) (hlen : c.bitOff ≤ bitmap.length) :
    bitSet (splice bitmap c bits) i = bitSet bitmap i := by
  have hget : (splice bitmap c bits)[i / 8]? = bitmap[i / 8]? := by
    unfold splice
    have htake : i / 8 < (bitmap.take c.bitOff).length := by
      rw [List.length_take]
      omega
    rw [List.append_assoc, List.getElem?_append_left htake, List.getElem?_take_of_lt hi]
  unfold bitSet
  rw [hget]

/-- A chunk's own slice holds its bits. -/
theorem splice_here {j : Nat} (hj : j / 8 < bits.length) (hlen : c.bitOff ≤ bitmap.length) :
    bitSet (splice bitmap c bits) (c.bitOff * 8 + j) = bitSet bits j := by
  have hdiv : (c.bitOff * 8 + j) / 8 = c.bitOff + j / 8 := by omega
  have hmod : (c.bitOff * 8 + j) % 8 = j % 8 := by omega
  have htake : (bitmap.take c.bitOff).length = c.bitOff := by
    rw [List.length_take]
    omega
  have hget : (splice bitmap c bits)[c.bitOff + j / 8]? = bits[j / 8]? := by
    unfold splice
    rw [List.append_assoc, List.getElem?_append_right (by omega), htake,
      Nat.add_sub_cancel_left, List.getElem?_append_left hj]
  unfold bitSet
  rw [hdiv, hmod, hget]

theorem length_splice (hbits : bits.length = c.bitLen)
    (hlen : c.bitOff + c.bitLen ≤ bitmap.length) :
    (splice bitmap c bits).length = bitmap.length := by
  unfold splice
  simp only [List.length_append, List.length_take, List.length_drop]
  omega

-- ==== pages in memory

/-- Write pages one after the other. -/
def pokeAll (bytes : Nat → UInt8) (pages : List (Nat × List UInt8)) : Nat → UInt8 :=
  pages.foldl (fun b e => poke b e.1 e.2) bytes

/-- A page with a place of its own. -/
def WholePage (e : Nat × List UInt8) : Prop :=
  e.1 % pageSize = 0 ∧ e.2.length = pageSize

theorem poke_page {bytes : Nat → UInt8} {e : Nat × List UInt8} (he : WholePage e) (a : Nat) :
    (a / pageSize ≠ e.1 / pageSize ∧ poke bytes e.1 e.2 a = bytes a) ∨
    (a / pageSize = e.1 / pageSize ∧ e.2[a - e.1]? = some (poke bytes e.1 e.2 a)) := by
  obtain ⟨hal, hlen⟩ := he
  unfold poke
  unfold pageSize at *
  by_cases hpage : a / 4096 = e.1 / 4096
  · have hle : e.1 ≤ a := by omega
    have hlt : a - e.1 < e.2.length := by omega
    refine .inr ⟨hpage, ?_⟩
    rw [if_pos hle, List.getElem?_eq_getElem hlt, Option.getD_some]
  · refine .inl ⟨hpage, ?_⟩
    by_cases hle : e.1 ≤ a
    · rw [if_pos hle, List.getElem?_eq_none (by omega), Option.getD_none]
    · rw [if_neg hle]

/-- After a list of page writes an address holds what it held, or a byte of
one of the pages written over it. -/
theorem pokeAll_cases {bytes : Nat → UInt8}
    {pages : List (Nat × List UInt8)} (hp : ∀ e ∈ pages, WholePage e)
    (a : Nat) :
    ((∀ e ∈ pages, a / pageSize ≠ e.1 / pageSize) ∧ pokeAll bytes pages a = bytes a) ∨
    (∃ e ∈ pages, a / pageSize = e.1 / pageSize ∧
      e.2[a - e.1]? = some (pokeAll bytes pages a)) := by
  induction pages generalizing bytes with
  | nil => exact .inl ⟨nofun, rfl⟩
  | cons e pages ih =>
    have hrest := @ih (poke bytes e.1 e.2) fun e' he' => hp e' (List.mem_cons_of_mem _ he')
    rcases hrest with ⟨hnone, heq⟩ | ⟨e', he', hpage, hget⟩
    · rcases @poke_page bytes _ (hp e List.mem_cons_self) a with
        ⟨hne, hpoke⟩ | ⟨hpage, hget⟩
      · refine .inl ⟨?_, heq.trans hpoke⟩
        intro e' he'
        rcases List.mem_cons.mp he' with rfl | he'
        · exact hne
        · exact hnone e' he'
      · refine .inr ⟨e, List.mem_cons_self, hpage, ?_⟩
        show e.2[a - e.1]? = some (pokeAll (poke bytes e.1 e.2) pages a)
        rw [heq]
        exact hget
    · exact .inr ⟨e', List.mem_cons_of_mem _ he', hpage, hget⟩

theorem write_ok {gpa : Nat} {data : List UInt8} (h : m.write gpa data = .ok m') :
    m'.bytes = poke m.bytes gpa data ∧ m'.space = m.space := by
  unfold GuestMem.write at h
  split at h
  · cases h
  next v hv =>
    cases hc : GuestMem.checkWrite v data.length with
    | error e =>
      rw [hc] at h
      cases h
    | ok u =>
      rw [hc] at h
      cases h
      exact ⟨rfl, rfl⟩

theorem writePages_ok {pages : List (Nat × List UInt8)} (h : writePages m pages = .ok m') :
    m'.bytes = pokeAll m.bytes pages ∧ m'.space = m.space := by
  induction pages generalizing m with
  | nil =>
    cases h
    exact ⟨rfl, rfl⟩
  | cons e pages ih =>
    unfold writePages at h
    rw [List.foldlM_cons] at h
    cases hw : m.write e.1 e.2 with
    | error err =>
      simp only [hw] at h
      cases h
    | ok m₁ =>
      simp only [hw] at h
      obtain ⟨hb, hs⟩ := write_ok hw
      obtain ⟨hb', hs'⟩ := ih (m := m₁) h
      refine ⟨?_, hs'.trans hs⟩
      rw [hb', hb]
      rfl

-- ==== a batch arrives

theorem pageChunks_append {page raw : List UInt8} (h : page.length = pageSize) :
    pageChunks (page ++ raw) = page :: pageChunks raw := by
  unfold pageChunks
  have hcount : (page ++ raw).length / pageSize = raw.length / pageSize + 1 := by
    rw [List.length_append, h, Nat.add_comm]
    exact Nat.add_div_right _ (by decide)
  rw [hcount, List.range_succ_eq_map, List.map_cons, List.map_map]
  refine congrArg₂ List.cons ?_ ?_
  · rw [Nat.zero_mul, List.drop_zero, ← h, List.take_left]
  · refine List.map_congr_left fun i _ => ?_
    have hoff : (i + 1) * pageSize = page.length + i * pageSize := by
      rw [h, Nat.add_mul, Nat.one_mul, Nat.add_comm]
    show ((page ++ raw).drop ((i + 1) * pageSize)).take pageSize = _
    rw [hoff, List.drop_append, List.drop_eq_nil_of_le (by omega), Nat.add_sub_cancel_left]
    rfl

/-- A buffer of whole pages falls back into the pages. -/
theorem pageChunks_flatten (h : ∀ p ∈ pages, p.length = pageSize) :
    pageChunks pages.flatten = pages := by
  induction pages with
  | nil => rfl
  | cons p pages ih =>
    rw [List.flatten_cons, pageChunks_append (h p List.mem_cons_self),
      ih fun q hq => h q (List.mem_cons_of_mem _ hq)]

theorem length_flatten_pages (h : ∀ p ∈ pages, p.length = pageSize) :
    pages.flatten.length = pages.length * pageSize := by
  induction pages with
  | nil => simp
  | cons p pages ih =>
    rw [List.flatten_cons, List.length_append, h p List.mem_cons_self,
      ih fun q hq => h q (List.mem_cons_of_mem _ hq), List.length_cons,
      Nat.add_mul, Nat.one_mul, Nat.add_comm]

/-- What the libraries on the wire promise: zstd gives back what it was
given, and a list of addresses survives its text. -/
structure Faithful (out : Outside) : Prop where
  zstd : ∀ raw c n, out.compress raw = some c → raw.length ≤ n → out.decompress c n = .ok raw
  gpas : out.gpas.Survives

variable {out : Outside}

theorem compress_flags (raw : List UInt8) : (compress out raw).2 < 2 := by
  unfold compress
  split
  · split
    · exact Nat.one_lt_two
    · exact Nat.two_pos
  · exact Nat.two_pos

/-- The bytes of a batch come out as they went in. -/
theorem batchBytes_compress (hout : Faithful out) {raw raw' : List UInt8}
    (h : batchBytes out (compress out raw).2 (compress out raw).1 raw.length
      = .ok raw') : raw' = raw := by
  obtain ⟨mid, hmid, hend⟩ := bind_eq_ok.mp h
  have hsame : raw' = mid := by
    split at hend
    · cases hend
    · cases hend
      rfl
  rw [hsame]
  -- either the data is zstd's, or it is the buffer itself
  have hraw : isZstd 0 = false := rfl
  unfold inflate compress at hmid
  cases hc : out.compress raw with
  | none =>
    simp only [hc, hraw, Bool.false_eq_true, if_false] at hmid
    split at hmid
    · cases hmid
    · cases hmid
      rfl
  | some c =>
    simp only [hc] at hmid
    by_cases hlen : c.length < raw.length
    · have hz : isZstd pageBatchFlagZstd = true := rfl
      simp only [hlen, if_true, hz] at hmid
      split at hmid
      · cases hmid
      · rw [hout.zstd raw c raw.length hc (Nat.le_refl _)] at hmid
        cases hmid
        rfl
    · simp only [hlen, if_false, hraw, Bool.false_eq_true] at hmid
      split at hmid
      · cases hmid
      · cases hmid
        rfl

variable {base : Nat} {gpas : List Nat}

theorem mapM_contiguous {is : List Nat} (h : is.mapM (fun i =>
      match checkedAdd base (i * pageSize) with
      | none => (.error (.codec "page GPA overflow") : Except MigrateError Nat)
      | some gpa => .ok gpa) = .ok gpas) :
    (gpas = is.map fun i => base + i * pageSize) ∧ ∀ i ∈ is, base + i * pageSize < 2 ^ 64 := by
  induction is generalizing gpas with
  | nil =>
    cases h
    exact ⟨rfl, nofun⟩
  | cons i is ih =>
    rw [List.mapM_cons] at h
    obtain ⟨gpa, hgpa, h⟩ := bind_eq_ok.mp h
    obtain ⟨rest, hrest, h⟩ := bind_eq_ok.mp h
    cases h
    obtain ⟨hmap, hlt⟩ := ih hrest
    split at hgpa
    · cases hgpa
    next sum hsum =>
      cases hgpa
      obtain ⟨hadd, hi⟩ := checkedAdd_some hsum
      refine ⟨?_, fun j hj => ?_⟩
      · rw [List.map_cons, hmap, hadd]
      · rcases List.mem_cons.mp hj with rfl | hj
        · exact hi
        · exact hlt j hj

/-- A list of consecutive pages, none of them past the address space. -/
theorem buildContiguousGpas_ok {n : Nat} (h : buildContiguousGpas base n = .ok gpas) :
    (gpas = (List.range n).map fun i => base + i * pageSize) ∧ base < 2 ^ 64 := by
  obtain ⟨len, hlen, h⟩ := bind_eq_ok.mp h
  obtain ⟨hmap, hlt⟩ := mapM_contiguous h
  refine ⟨hmap, ?_⟩
  unfold pageBufferLen at hlen
  split at hlen
  · cases hlen
  next hn =>
    have h0 := hlt 0 (List.mem_range.mpr (by omega))
    rw [Nat.zero_mul] at h0
    exact h0

/-- A list that passes the contiguity test is the list the destination
rebuilds from its first address. -/
theorem areContiguous_eq {rest : List Nat} (h : areContiguous (base :: rest) = true) :
    base :: rest = (List.range (rest.length + 1)).map fun i => base + i * pageSize := by
  unfold areContiguous at h
  rw [List.all_eq_true] at h
  refine List.ext_getElem ?_ fun i h1 h2 => ?_
  · simp
  · have hmem : ((base :: rest)[i], i) ∈ (base :: rest).zipIdx := by
      rw [List.mem_zipIdx_iff_getElem?]
      exact List.getElem?_eq_getElem h1
    have hi := h _ hmem
    have hadd : checkedAdd base (i * pageSize) = some (base :: rest)[i] := by
      simpa using hi
    rw [(checkedAdd_some hadd).1]
    simp

variable {sparse : Option (List Nat)}

/-- What an accepted batch has done. -/
theorem applyPageBatch_ok {count flags : Nat} {data : List UInt8}
    (h : applyPageBatch out m base count flags data sparse = .ok m') :
    ∃ raw gpas, batchBytes out flags data (count * pageSize) = .ok raw ∧
      batchGpas base count sparse = .ok gpas ∧
      m'.bytes = pokeAll m.bytes (gpas.zip (pageChunks raw)) ∧
      m'.space = m.space := by
  obtain ⟨_, -, h⟩ := bind_eq_ok.mp h
  obtain ⟨raw, hraw, h⟩ := bind_eq_ok.mp h
  obtain ⟨gpas, hgpas, h⟩ := bind_eq_ok.mp h
  obtain ⟨_, -, h⟩ := bind_eq_ok.mp h
  exact ⟨raw, gpas, hraw, hgpas, writePages_ok h⟩

/-- The places a batch goes to: the list sent before it, or the run of pages
from its base address on. -/
def Placed (base : Nat) (gpas : List Nat) : Option (List Nat) → Prop
  | some g => g = gpas
  | none => gpas = (List.range gpas.length).map fun i => base + i * pageSize

/-- A batch the destination accepts writes the pages that were read, at the
addresses they were read from. -/
theorem applied_batch (hout : Faithful out) (hlen : pages.length = gpas.length)
    (hpages : ∀ p ∈ pages, p.length = pageSize)
    (hplaced : Placed base gpas sparse)
    (h : applyPageBatch out m base gpas.length (compress out pages.flatten).2
      (compress out pages.flatten).1 sparse = .ok m') :
    m'.bytes = pokeAll m.bytes (gpas.zip pages) ∧ m'.space = m.space := by
  obtain ⟨raw, gpas', hraw, hgpas, hbytes, hspace⟩ := applyPageBatch_ok h
  rw [← hlen, ← length_flatten_pages hpages] at hraw
  obtain rfl := batchBytes_compress hout hraw
  have hsame : gpas' = gpas := by
    unfold batchGpas at hgpas
    cases sparse with
    | some g =>
      obtain rfl : g = gpas := hplaced
      simp only [ne_eq, not_true_eq_false, if_false] at hgpas
      cases hgpas
      rfl
    | none =>
      rw [(buildContiguousGpas_ok hgpas).1]
      exact hplaced.symm
  rw [hsame, pageChunks_flatten hpages] at hbytes
  exact ⟨hbytes, hspace⟩

end Rshyve.Migrate
