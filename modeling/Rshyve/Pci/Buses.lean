/-
# Dispatch on the buses

`vmm-core/src/{aspace,pio,mmio}.rs`: which registered range an access of the
guest goes to, after any history of registrations. The map is the one of
`Pci.Decode`. Here the arithmetic of a lookup can panic: `none` is the
`unwrap` of an end that overflows, or an offset below zero.

A bus looks at the first address of an access and at its width, and never at
both together. So the range it picks need not hold the whole access.
-/
import Rshyve.Pci.Proofs.Decode

namespace Rshyve.Pci

variable {α : Type}

-- ==== the lookups

/-- The bits of an address, and the widths of an access. -/
def BusKind.bits : BusKind → Nat
  | .pio => 16
  | .mmio => 64

def BusKind.widths : BusKind → List (BitVec 8)
  | .pio => [1, 2, 4]
  | .mmio => [1, 2, 4, 8]

namespace ASpace

/-- `ASpace::region_at`, or a panic. -/
def regionAtOrPanic (s : ASpace α) (point : Nat) : Option (Except ASpaceError (RangeMap.Entry α)) :=
  if point < s.start ∨ point > s.stop then some (.error .outOfRange)
  else
    match RangeMap.floor s.map point with
    | none => some (.error .notFound)
    | some e =>
      (safeEnd e.start e.len).map fun last =>
        if last ≥ point then .ok e else .error .notFound

/-- `lookup` of either bus: the offset and the handler. -/
def lookup (k : BusKind) (s : ASpace α) (addr : BitVec k.bits) : Option (Option (Nat × α)) :=
  match s.regionAtOrPanic addr.toNat with
  | none => none
  | some (.error _) => some none
  | some (.ok e) =>
    -- the start is cut to the width of an address
    let start := e.start % 2 ^ k.bits
    if start ≤ addr.toNat then some (some (addr.toNat - start, e.item))
    else none

/-- Where `handle_in`, `handle_out` and their kin take an access. -/
def dispatch (k : BusKind) (s : ASpace α) (addr : BitVec k.bits)
    (bytes : BitVec 8) : Option (Option (Nat × α)) :=
  if bytes ∈ k.widths then s.lookup k addr else some none

end ASpace

/-- A call that changes the registrations. -/
inductive BusCall (α : Type) where
  | register (start len : Nat) (item : α)
  | unregister (start : Nat)

/-- The space after a call; one that fails leaves it alone. -/
def ASpace.call (s : ASpace α) : BusCall α → ASpace α
  | .register start len item =>
    match s.register start len item with
    | .ok s' => s'
    | .error _ => s
  | .unregister start =>
    match s.unregister start with
    | .ok s' => s'
    | .error _ => s

/-- A bus after `calls`. -/
def busAfter (k : BusKind) (calls : List (BusCall α)) : ASpace α :=
  calls.foldl ASpace.call ⟨0, k.last, []⟩

-- ==== what is kept

namespace ASpace

/-- The bounds are those of the bus, and the ranges are inside and apart. -/
structure Sound (k : BusKind) (s : ASpace α) : Prop where
  bounds : s.start = 0 ∧ s.stop = k.last
  ok : RangeMap.Ok s.map
  inside : ∀ e ∈ s.map, e.stop ≤ k.last + 1

variable {k : BusKind} {s : ASpace α}

theorem Sound.register (h : Sound k s) {start len : Nat} {item : α}
    {s' : ASpace α} (hr : s.register start len item = .ok s') :
    Sound k s' := by
  have hlast : s.stop < 2 ^ 64 := h.bounds.2 ▸ Machine.last_lt k
  obtain ⟨hfree, rfl⟩ := (register_eq_ok h.ok hlast).mp hr
  refine ⟨h.bounds, h.ok.insert hfree.nonempty hfree.apart, fun e he => ?_⟩
  rcases RangeMap.mem_insert.mp he with rfl | he
  · exact h.bounds.2 ▸ hfree.inside.2
  · exact h.inside e he

theorem Sound.call (h : Sound k s) (c : BusCall α) : Sound k (s.call c) := by
  cases c with
  | register start len item =>
    unfold ASpace.call
    dsimp only
    split
    next s' hs' => exact h.register hs'
    · exact h
  | unregister start =>
    unfold ASpace.call unregister
    dsimp only
    split
    next s' hs' =>
      split at hs'
      · cases hs'
        exact ⟨h.bounds, h.ok.erase start, fun e he =>
          h.inside e (RangeMap.mem_erase.mp he).1⟩
      · cases hs'
    · exact h

theorem sound_after (k : BusKind) (calls : List (BusCall α)) : Sound k (busAfter k calls) := by
  have hrun (s : ASpace α) (hs : Sound k s) : Sound k (calls.foldl call s) := by
    induction calls generalizing s with
    | nil => exact hs
    | cons c calls ih => exact ih _ (hs.call c)
  exact hrun _ ⟨⟨rfl, rfl⟩, ⟨.nil, nofun⟩, nofun⟩

/-- No end overflows, so the search is the one without panics. -/
theorem Sound.regionAtOrPanic_eq (h : Sound k s) (point : Nat) :
    s.regionAtOrPanic point = some (s.regionAt point) := by
  unfold regionAtOrPanic regionAt RangeMap.lookup
  split
  · rfl
  · split
    next hfloor => rw [hfloor]
    next e hfloor =>
      have he := (RangeMap.floor_mem hfloor).1
      have hpos := h.ok.nonempty e he
      have hend := h.inside e he
      have hlast := Machine.last_lt k
      have hstop : e.stop = e.start + e.len := rfl
      have hsafe : safeEnd e.start e.len = some (e.start + e.len - 1) := by
        unfold safeEnd
        rw [if_neg (by omega), if_pos (by omega)]
      rw [hfloor, hsafe]
      dsimp only [Option.map_some]
      by_cases hin : point < e.stop
      · rw [if_pos hin, if_pos (by omega)]
      · rw [if_neg hin, if_neg (by omega)]

/-- A lookup does not panic, and finds the range of the address. -/
theorem Sound.lookup_spec (h : Sound k s) (addr : BitVec k.bits) :
    ∃ found, s.lookup k addr = some found ∧ ∀ offset item,
      found = some (offset, item) ↔ ∃ e ∈ s.map, e.covers addr.toNat ∧
        offset = addr.toNat - e.start ∧ item = e.item := by
  have hspec := fun e => regionAt_eq_ok (e := e) h.ok (p := addr.toNat)
  unfold lookup
  rw [h.regionAtOrPanic_eq]
  cases hat : s.regionAt addr.toNat with
  | error err =>
    refine ⟨none, rfl, fun offset item => iff_of_false nofun ?_⟩
    rintro ⟨e, he, hcov, -⟩
    have hend := h.inside e he
    have hbounds := h.bounds
    have hok := (hspec e).mpr ⟨by unfold RangeMap.Entry.covers at hcov; omega, he, hcov⟩
    rw [hat] at hok
    cases hok
  | ok e =>
    obtain ⟨-, he, hcov⟩ := (hspec e).mp hat
    have hmod : e.start % 2 ^ k.bits = e.start :=
      Nat.mod_eq_of_lt (Nat.lt_of_le_of_lt hcov.1 addr.isLt)
    dsimp only
    rw [hmod, if_pos hcov.1]
    refine ⟨_, rfl, fun offset item => ?_⟩
    simp only [Option.some.injEq, Prod.mk.injEq]
    constructor
    · rintro ⟨rfl, rfl⟩
      exact ⟨e, he, hcov, rfl, rfl⟩
    · rintro ⟨e', he', hcov', rfl, rfl⟩
      rw [h.ok.eq_of_covers he he' hcov hcov']
      exact ⟨rfl, rfl⟩

end ASpace

-- ==== the buses

/-- After any calls on either bus: its ranges are non-empty, inside it and
disjoint. A range is accepted exactly when it is such a range and meets no
other. No search panics, and an access of a width the bus has goes to the one
range that holds its first address, or to none. -/
theorem bus_dispatch (k : BusKind) (calls : List (BusCall α)) :
    let s := busAfter k calls
    (∀ e ∈ s.map, 0 < e.len ∧ e.stop ≤ k.last + 1) ∧
    (s.map.Pairwise fun a b => a.stop ≤ b.start) ∧
    (∀ start len item, (∃ s', s.register start len item = .ok s') ↔
      0 < len ∧ start + len ≤ k.last + 1 ∧
        ∀ e ∈ s.map, e.stop ≤ start ∨ start + len ≤ e.start) ∧
    (∀ point, s.regionAtOrPanic point = some (s.regionAt point)) ∧
    ∀ (addr : BitVec k.bits) bytes, ∃ found,
      s.dispatch k addr bytes = some found ∧ ∀ offset item,
        found = some (offset, item) ↔ bytes ∈ k.widths ∧
          ∃ e ∈ s.map, (e.covers addr.toNat ∧
            ∀ e' ∈ s.map, e'.covers addr.toNat → e' = e) ∧
            offset = addr.toNat - e.start ∧ item = e.item := by
  intro s
  have h : ASpace.Sound k s := ASpace.sound_after k calls
  have hlast : s.stop < 2 ^ 64 := h.bounds.2 ▸ Machine.last_lt k
  refine ⟨fun e he => ⟨h.ok.nonempty e he, h.inside e he⟩, h.ok.apart,
    fun start len item => ?_, h.regionAtOrPanic_eq, fun addr bytes => ?_⟩
  · simp only [ASpace.register_eq_ok h.ok hlast, exists_and_left, exists_eq,
      and_true]
    constructor
    · intro hfree
      exact ⟨hfree.nonempty, h.bounds.2 ▸ hfree.inside.2, hfree.apart⟩
    · rintro ⟨hlen, hend, hapart⟩
      refine ⟨hlen, ⟨?_, ?_⟩, hapart⟩
      · rw [h.bounds.1]
        exact Nat.zero_le _
      · rw [h.bounds.2]
        exact hend
  · unfold ASpace.dispatch
    by_cases hw : bytes ∈ k.widths
    · rw [if_pos hw]
      obtain ⟨found, hfound, hspec⟩ := h.lookup_spec addr
      refine ⟨found, hfound, fun offset item => (hspec offset item).trans ?_⟩
      constructor
      · rintro ⟨e, he, hcov, hrest⟩
        exact ⟨hw, e, he, ⟨hcov, fun e' he' hcov' =>
          h.ok.eq_of_covers he' he hcov' hcov⟩, hrest⟩
      · rintro ⟨-, e, he, ⟨hcov, -⟩, hrest⟩
        exact ⟨e, he, hcov, hrest⟩
    · rw [if_neg hw]
      exact ⟨none, rfl, fun offset item => iff_of_false nofun fun h => hw h.1⟩

/-- The eight ports of a serial line. -/
def serialPorts : List (BusCall Unit) := [.register 0x3f8 8 ()]

/-- Four bytes at the last of the ports go to the line, although it has only
the first of them. -/
theorem straddling_access_dispatched :
    (busAfter .pio serialPorts).dispatch .pio 0x3ff 4 = some (some (7, ())) ∧
      ∀ e ∈ (busAfter .pio serialPorts).map, e.stop < 0x3ff + 4 := by
  decide

end Rshyve.Pci
