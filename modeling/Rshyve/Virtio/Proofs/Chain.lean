/-
# What chain collection returns

`collectChain_exact`: whatever the guest wrote, the collection ends, and it
returns a list exactly when the descriptors from the head on form a legal
chain (`ChainPath`), with that chain's buffers.

Each loop is inverted once (`tableTurn_eq_some`, `chainTurn_eq_some`); the
bound on the turns is `Links.walk_eq_some_iff`, with the index of a descriptor
as its number.
-/
import Rshyve.Virtio.Pci.Chain

namespace Rshyve.Virtio.Pci

open Rshyve.Mem

-- ==== descriptors and links

variable {d : VirtqDesc} {gpa : BitVec 64} {bufs : List ChainBuf} {k : Nat}

theorem VirtqDesc.link_eq_none : d.link = none ↔ d.hasNext = false := by
  unfold link
  cases d.hasNext <;> simp

theorem VirtqDesc.link_eq_some {idx : BitVec 16} :
    d.link = some idx ↔ d.hasNext = true ∧ d.next = idx := by
  unfold link
  cases d.hasNext <;> simp

variable {m : GuestMem}

/-- A descriptor that can be read ends below the top of memory. -/
theorem loadDesc_lt {gpa : Nat} (h : loadDesc m gpa = some d) : gpa + 16 < 2 ^ 64 := by
  obtain ⟨bs, hbs, -⟩ := Option.map_eq_some_iff.1 h
  unfold GuestMem.load canLoad at hbs
  cases hl : m.space.lookup gpa 16 with
  | none => simp [hl] at hbs
  | some v => exact Access.add_lt_of_lookup (by rw [hl]; rfl)

-- ==== indirect tables

variable {idx numDescs : Nat}

theorem tableTurn_eq_some {out : List ChainBuf} {b : Option Nat} :
    tableTurn m gpa numDescs k idx = some (out, b) ↔
      idx < numDescs ∧ ∃ d, loadDesc m (gpa.toNat + idx * 16) = some d ∧
        d.isIndirect = false ∧ out = [d.buf] ∧
        b = d.link.map BitVec.toNat := by
  unfold tableTurn
  by_cases hin : idx ≥ numDescs
  · rw [if_pos hin]
    simp only [reduceCtorEq, false_iff, not_and]
    exact fun h => absurd h (Nat.not_lt.2 hin)
  rw [if_neg hin]
  constructor
  · intro h
    obtain ⟨off, hoff, h₁⟩ := Option.bind_eq_some_iff.1 h
    obtain ⟨pos, hpos, h₂⟩ := Option.bind_eq_some_iff.1 h₁
    obtain ⟨d, hd, h₃⟩ := Option.bind_eq_some_iff.1 h₂
    have hoff : off = idx * 16 := by
      unfold checkedMul at hoff
      split at hoff <;> cases hoff
      rfl
    have hpos : pos = gpa.toNat + off := by
      unfold checkedAdd at hpos
      split at hpos <;> cases hpos
      rfl
    subst hoff hpos
    cases hi : d.isIndirect with
    | true =>
      rw [hi, if_pos rfl] at h₃
      cases h₃
    | false =>
      rw [hi, if_neg (by nofun)] at h₃
      cases h₃
      exact ⟨Nat.lt_of_not_le hin, d, hd, hi, rfl, rfl⟩
  · rintro ⟨-, d, hd, hi, rfl, rfl⟩
    have hlt := loadDesc_lt hd
    have hmul : checkedMul idx 16 = some (idx * 16) := if_pos (by omega)
    have hadd : checkedAdd gpa.toNat (idx * 16) = some (gpa.toNat + idx * 16) := if_pos (by omega)
    simp [hmul, hadd, hd, hi]

/-- A table path is a path of the loop's turns. -/
theorem tablePath_iff : Links.Path (tableTurn m gpa numDescs) k idx bufs ↔
      TablePath m gpa numDescs idx bufs := by
  constructor
  · intro h
    induction h with
    | stop ht =>
      obtain ⟨hin, d, hd, hi, rfl, hb⟩ := tableTurn_eq_some.1 ht
      have hend := VirtqDesc.link_eq_none.1 (Option.map_eq_none_iff.1 hb.symm)
      exact .last hin hd hi hend
    | link ht _ ih =>
      obtain ⟨hin, d, hd, hi, rfl, hb⟩ := tableTurn_eq_some.1 ht
      obtain ⟨i, hlink, rfl⟩ := Option.map_eq_some_iff.1 hb.symm
      obtain ⟨hmore, rfl⟩ := VirtqDesc.link_eq_some.1 hlink
      exact .next hin hd hi hmore ih
  · intro h
    induction h generalizing k with
    | @last idx d hin hd hi hend =>
      refine .stop (tableTurn_eq_some.2 ⟨hin, d, hd, hi, rfl, ?_⟩)
      rw [VirtqDesc.link_eq_none.2 hend]
      rfl
    | @next idx d bufs hin hd hi hmore _ ih =>
      have ht : tableTurn m gpa numDescs k idx = some ([d.buf], some d.next.toNat) := by
        refine tableTurn_eq_some.2 ⟨hin, d, hd, hi, rfl, ?_⟩
        rw [VirtqDesc.link_eq_some.2 ⟨hmore, rfl⟩]
        rfl
      exact .link ht ih

/-- The descriptor a table's loop goes to from `idx`. -/
def tableLink (m : GuestMem) (gpa : BitVec 64) (idx : Nat) : Option Nat :=
  (loadDesc m (gpa.toNat + idx * 16)).bind fun d => d.link.map BitVec.toNat

variable {len : BitVec 32} {budget : Nat}

theorem walkIndirectTable_eq_some : walkIndirectTable m gpa len budget = some bufs ↔
      len.toNat % 16 = 0 ∧ len.toNat / 16 ≤ budget ∧ TablePath m gpa (len.toNat / 16) 0 bufs := by
  have hnext : ∀ k idx out b, tableTurn m gpa (len.toNat / 16) k idx = some (out, b) →
        tableLink m gpa idx = b := by
    intro k idx out b ht
    obtain ⟨-, d, hd, -, -, rfl⟩ := tableTurn_eq_some.1 ht
    unfold tableLink
    rw [hd]
    rfl
  have hnode : ∀ k idx, (tableTurn m gpa (len.toNat / 16) k idx).isSome →
        id idx < len.toNat / 16 := by
    intro k idx ht
    obtain ⟨⟨out, b⟩, ht⟩ := Option.isSome_iff_exists.1 ht
    exact (tableTurn_eq_some.1 ht).1
  have hwalk : Links.walk (tableTurn m gpa (len.toNat / 16)) (len.toNat / 16) 0 0 [] = some bufs ↔
        TablePath m gpa (len.toNat / 16) 0 bufs :=
    (Links.walk_eq_some_iff hnext Function.injective_id hnode).trans tablePath_iff
  unfold walkIndirectTable
  simp only []
  split
  · rename_i hbad
    simp only [reduceCtorEq, false_iff]
    rintro ⟨hlen, -, hpath⟩
    rcases hbad with hz | hmul
    · -- the first descriptor of an empty table is past its end
      rw [hz] at hpath
      cases hpath <;> contradiction
    · exact hmul hlen
  · rename_i hok
    simp only [not_or, Decidable.not_not] at hok
    split
    · rename_i hover
      simp only [reduceCtorEq, false_iff]
      rintro ⟨-, hle, -⟩
      exact Nat.not_le.2 hover hle
    · rename_i hle
      rw [hwalk]
      exact ⟨fun h => ⟨hok.2, Nat.le_of_not_lt hle, h⟩, fun h => h.2.2⟩

theorem walkIndirectTable_length (h : walkIndirectTable m gpa len budget = some bufs) :
    bufs.length ≤ budget := by
  have hle := (walkIndirectTable_eq_some.1 h).2.1
  unfold walkIndirectTable at h
  simp only [] at h
  split at h
  · cases h
  split at h
  · cases h
  have hone : ∀ k idx out b, tableTurn m gpa (len.toNat / 16) k idx = some (out, b) →
        out.length = 1 := by
    intro k idx out b ht
    obtain ⟨-, d, -, -, rfl, -⟩ := tableTurn_eq_some.1 ht
    rfl
  have hlen := Links.walk_length_le (n := len.toNat / 16)
    (fun k idx out b ht => Nat.le_of_eq (hone k idx out _ ht))
    (fun k idx out hk ht => by rw [hone k idx out _ ht]; omega) rfl h
  rw [List.length_nil, Nat.zero_add] at hlen
  exact Nat.le_trans hlen hle

-- ==== chains

namespace VirtQueue

variable {q : VirtQueue} {m : GuestMem} {idx : BitVec 16}

theorem readDesc_eq_some : q.readDesc m idx = some d ↔
      idx < q.size ∧ loadDesc m (descGpa q.descAddr idx).toNat = some d := by
  unfold readDesc
  split
  · rename_i h
    simp only [reduceCtorEq, false_iff, not_and]
    exact fun h' => absurd h' (BitVec.not_lt.2 h)
  · rename_i h
    rw [BitVec.not_le] at h
    exact ⟨fun h' => ⟨h, h'⟩, fun h' => h'.2⟩

/-- The last turn of a chain that ends in a table. -/
structure EndsInTable (q : VirtQueue) (m : GuestMem) (k : Nat)
    (d : VirtqDesc) (out : List ChainBuf) : Prop where
  negotiated : q.indirectSupported = true
  alone : d.hasNext = false
  table : walkIndirectTable m d.addr d.len (q.size.toNat - k) = some out

variable {out : List ChainBuf}

variable {b : Option (BitVec 16)}

theorem chainTurn_eq_some : q.chainTurn m k idx = some (out, b) ↔ ∃ d, q.readDesc m idx = some d ∧
        ((d.isIndirect = false ∧ out = [d.buf] ∧ b = d.link) ∨
          (d.isIndirect = true ∧ q.EndsInTable m k d out ∧ b = none)) := by
  have hbudget : q.size.toNat + 1 - (k + 1) = q.size.toNat - k := by omega
  unfold chainTurn
  rw [Option.bind_eq_bind, Option.bind_eq_some_iff]
  refine exists_congr fun d => and_congr_right fun _ => ?_
  cases hi : d.isIndirect with
  | false =>
    simp only [Bool.false_eq_true, if_false, false_and, or_false, true_and]
    constructor
    · intro h
      cases h
      exact ⟨rfl, rfl⟩
    · rintro ⟨rfl, rfl⟩
      rfl
  | true =>
    simp only [if_true, Bool.true_eq_false, false_and, false_or, true_and, hbudget]
    constructor
    · intro h
      split at h
      · cases h
      rename_i hneg
      split at h
      · cases h
      rename_i hend
      obtain ⟨bufs, hbufs, h⟩ := Option.bind_eq_some_iff.1 h
      cases h
      exact ⟨⟨by simpa using hneg, by simpa using hend, hbufs⟩, rfl⟩
    · rintro ⟨⟨hneg, hend, hbufs⟩, rfl⟩
      simp [hneg, hend, hbufs]

/-- A chain path is a path of the loop's turns. -/
theorem chainPath_iff : Links.Path (q.chainTurn m) k idx bufs ↔ ChainPath q m k idx bufs := by
  constructor
  · intro h
    induction h with
    | stop ht =>
      obtain ⟨d, hd, ⟨hi, rfl, hb⟩ | ⟨hi, ht, -⟩⟩ := chainTurn_eq_some.1 ht
      · obtain ⟨hin, hd⟩ := readDesc_eq_some.1 hd
        exact .last hin hd hi (VirtqDesc.link_eq_none.1 hb.symm)
      · obtain ⟨hin, hd⟩ := readDesc_eq_some.1 hd
        obtain ⟨hlen, hle, hpath⟩ := walkIndirectTable_eq_some.1 ht.table
        exact .table hin hd hi ht.negotiated ht.alone hlen hle hpath
    | link ht _ ih =>
      obtain ⟨d, hd, ⟨hi, rfl, hb⟩ | ⟨-, -, hb⟩⟩ := chainTurn_eq_some.1 ht
      · obtain ⟨hin, hd⟩ := readDesc_eq_some.1 hd
        obtain ⟨hmore, rfl⟩ := VirtqDesc.link_eq_some.1 hb.symm
        exact .next hin hd hi hmore ih
      · cases hb
  · intro h
    induction h with
    | @last k idx d hin hd hi hend =>
      exact .stop (chainTurn_eq_some.2 ⟨d, readDesc_eq_some.2 ⟨hin, hd⟩,
        .inl ⟨hi, rfl, (VirtqDesc.link_eq_none.2 hend).symm⟩⟩)
    | @next k idx d bufs hin hd hi hmore _ ih =>
      have ht : q.chainTurn m k idx = some ([d.buf], some d.next) :=
        chainTurn_eq_some.2 ⟨d, readDesc_eq_some.2 ⟨hin, hd⟩,
          .inl ⟨hi, rfl, (VirtqDesc.link_eq_some.2 ⟨hmore, rfl⟩).symm⟩⟩
      exact .link ht ih
    | @table k idx d bufs hin hd hi hneg hend hlen hle hpath =>
      have htable := walkIndirectTable_eq_some.2 ⟨hlen, hle, hpath⟩
      exact .stop (chainTurn_eq_some.2 ⟨d, readDesc_eq_some.2 ⟨hin, hd⟩,
        .inr ⟨hi, ⟨hneg, hend, htable⟩, rfl⟩⟩)

/-- The descriptor the loop goes to from `idx`. -/
def chainLink (q : VirtQueue) (m : GuestMem) (idx : BitVec 16) : Option (BitVec 16) :=
  (q.readDesc m idx).bind fun d => if d.isIndirect then none else d.link

theorem chainLink_of_turn (h : q.chainTurn m k idx = some (out, b)) : q.chainLink m idx = b := by
  unfold chainLink
  obtain ⟨d, hd, ⟨hi, -, rfl⟩ | ⟨hi, -, rfl⟩⟩ := chainTurn_eq_some.1 h
  · rw [hd, Option.bind_some, if_neg (by rw [hi]; nofun)]
  · rw [hd, Option.bind_some, if_pos hi]

theorem lt_size_of_turn (h : (q.chainTurn m k idx).isSome) : idx.toNat < q.size.toNat := by
  obtain ⟨⟨out, b⟩, h⟩ := Option.isSome_iff_exists.1 h
  obtain ⟨d, hd, -⟩ := chainTurn_eq_some.1 h
  exact (readDesc_eq_some.1 hd).1

theorem length_of_turn (hk : k < q.size.toNat) (h : q.chainTurn m k idx = some (out, none)) :
    out.length ≤ q.size.toNat - k := by
  obtain ⟨d, -, ⟨-, rfl, -⟩ | ⟨-, ht, -⟩⟩ := chainTurn_eq_some.1 h
  · rw [List.length_singleton]
    omega
  · exact walkIndirectTable_length ht.table

theorem length_of_link {b : BitVec 16}
    (h : q.chainTurn m k idx = some (out, some b)) : out.length ≤ 1 := by
  obtain ⟨d, -, ⟨-, rfl, -⟩ | ⟨-, -, hb⟩⟩ := chainTurn_eq_some.1 h
  · exact Nat.le_refl _
  · cases hb

/-- Chain collection over any memory, from any head: a list is returned
exactly for a legal chain, it is that chain's buffers in order, and direct
and indirect descriptors together it never has more than the ring. -/
theorem collectChain_exact (q : VirtQueue) (m : GuestMem)
    (head : BitVec 16) :
    (∀ bufs, q.collectChain m head = some bufs ↔
      ChainPath q m 0 head bufs) ∧
    ∀ bufs, q.collectChain m head = some bufs →
      bufs.length ≤ q.size.toNat := by
  constructor
  · intro bufs
    have hinj : Function.Injective (BitVec.toNat (w := 16)) :=
      fun _ _ h => BitVec.eq_of_toNat_eq h
    have hwalk : q.collectChain m head = some bufs ↔
        Links.Path (q.chainTurn m) 0 head bufs :=
      Links.walk_eq_some_iff (fun _ _ _ _ => chainLink_of_turn) hinj
        fun _ _ => lt_size_of_turn
    exact hwalk.trans chainPath_iff
  · intro bufs h
    have hlen := Links.walk_length_le (fun _ _ _ _ => length_of_link)
      (fun _ _ _ => length_of_turn) rfl h
    rwa [List.length_nil, Nat.zero_add] at hlen

end VirtQueue

end Rshyve.Virtio.Pci
