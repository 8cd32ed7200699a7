/-
# Ordered maps of disjoint ranges

A list of ranges sorted by where they start, each with an item, such that
each ends before the next begins (`Ok`). This is what an ordered map from a
start to a length and an item holds when nobody inserts an overlap.

A point is looked up by the greatest start at or below it, and a new range
is tested for overlap by the entries that start in a window; both are the
searches an ordered map offers. `lookup_eq_some` and `touches_iff` say that
on `Ok` lists they are exact.
-/
import Mathlib

namespace RangeMap

variable {α : Type}

/-- `len` points from `start` on. -/
structure Entry (α : Type) where
  start : Nat
  len : Nat
  item : α
  deriving DecidableEq, Repr

/-- The first point past the range. -/
def Entry.stop (e : Entry α) : Nat := e.start + e.len

/-- The point lies in the range. -/
def Entry.covers (e : Entry α) (p : Nat) : Prop := e.start ≤ p ∧ p < e.stop

instance (e : Entry α) (p : Nat) : Decidable (e.covers p) := by
  unfold Entry.covers
  infer_instance

/-- Sorted, disjoint and none empty. -/
structure Ok (es : List (Entry α)) : Prop where
  apart : es.Pairwise fun a b => a.stop ≤ b.start
  nonempty : ∀ e ∈ es, 0 < e.len

/-- The entry with the greatest start at or below `p`. -/
def floor (es : List (Entry α)) (p : Nat) : Option (Entry α) :=
  (es.filter fun e => e.start ≤ p).getLast?

/-- The entry that holds `p`. -/
def lookup (es : List (Entry α)) (p : Nat) : Option (Entry α) :=
  match floor es p with
  | some e => if p < e.stop then some e else none
  | none => none

/-- Whether an entry meets the points from `s` to `last`. The window starts
at the entry that holds `s`, or past `s` if none does. -/
def touches (es : List (Entry α)) (s last : Nat) : Bool :=
  es.any fun e =>
    (match lookup es s with
    | some r => decide (r.start ≤ e.start)
    | none => decide (s < e.start)) && decide (e.start ≤ last)

def insert (es : List (Entry α)) (e : Entry α) : List (Entry α) :=
  es.filter (fun a => a.start < e.start) ++ e :: es.filter fun a => e.start ≤ a.start

def erase (es : List (Entry α)) (s : Nat) : List (Entry α) :=
  es.filter fun e => e.start ≠ s

-- ==== two entries

variable {es : List (Entry α)} {a : Entry α}

variable {b : Entry α}

/-- Two entries of an ordered map are one, or the one ends before the other
begins. -/
theorem Ok.cases (h : Ok es) (ha : a ∈ es) (hb : b ∈ es) :
    a = b ∨ a.stop ≤ b.start ∨ b.stop ≤ a.start := by
  induction es with
  | nil => cases ha
  | cons e es ih =>
    obtain ⟨hfirst, hrest⟩ := List.pairwise_cons.1 h.apart
    have hok : Ok es :=
      ⟨hrest, fun e' he' => h.nonempty e' (List.mem_cons_of_mem e he')⟩
    rcases List.mem_cons.1 ha with ha | ha
    · rcases List.mem_cons.1 hb with hb | hb
      · exact .inl (ha.trans hb.symm)
      · exact .inr (.inl (ha ▸ hfirst b hb))
    · rcases List.mem_cons.1 hb with hb | hb
      · exact .inr (.inr (hb ▸ hfirst a ha))
      · exact ih hok ha hb

variable {e : Entry α}

theorem Ok.lt_stop (h : Ok es) (he : e ∈ es) : e.start < e.stop := by
  have := h.nonempty e he
  unfold Entry.stop
  omega

variable {p : Nat}

/-- Entries that share a point are one. -/
theorem Ok.eq_of_covers (h : Ok es) (ha : a ∈ es) (hb : b ∈ es) (hpa : a.covers p)
    (hpb : b.covers p) : a = b := by
  obtain ⟨hpa₁, hpa₂⟩ := hpa
  obtain ⟨hpb₁, hpb₂⟩ := hpb
  rcases h.cases ha hb with heq | hle | hle
  · exact heq
  · omega
  · omega

/-- Entries that start together are one. -/
theorem Ok.eq_of_start (h : Ok es) (ha : a ∈ es) (hb : b ∈ es) (hs : a.start = b.start) : a = b :=
  h.eq_of_covers ha hb ⟨Nat.le_refl _, h.lt_stop ha⟩ ⟨Nat.le_of_eq hs.symm, hs ▸ h.lt_stop hb⟩

-- ==== the searches

theorem floor_mem (h : floor es p = some e) : e ∈ es ∧ e.start ≤ p := by
  have hmem := List.mem_of_getLast? h
  obtain ⟨hin, hle⟩ := List.mem_filter.1 hmem
  exact ⟨hin, of_decide_eq_true hle⟩

/-- No entry starts between the floor of `p` and `p`. -/
theorem floor_last (hok : Ok es) (h : floor es p = some e)
    (ha : a ∈ es) (hp : a.start ≤ p) : a.start ≤ e.start := by
  obtain ⟨ys, hys⟩ := List.getLast?_eq_some_iff.1 h
  have hmem : a ∈ ys ++ [e] := by
    rw [← hys]
    exact List.mem_filter.2 ⟨ha, decide_eq_true hp⟩
  have hpair : (ys ++ [e]).Pairwise fun a b => a.stop ≤ b.start := by
    rw [← hys]
    exact hok.apart.filter _
  rcases List.mem_append.1 hmem with hin | hin
  · have hle : a.stop ≤ e.start :=
      (List.pairwise_append.1 hpair).2.2 a hin e (List.mem_singleton.2 rfl)
    have := hok.lt_stop ha
    omega
  · exact Nat.le_of_eq (congrArg Entry.start (List.mem_singleton.1 hin))

/-- On an ordered map of disjoint ranges the lookup is exact. -/
theorem lookup_eq_some (hok : Ok es) : lookup es p = some e ↔ e ∈ es ∧ e.covers p := by
  unfold lookup
  constructor
  · intro h
    split at h
    · rename_i r hr
      split at h
      · rename_i hlt
        cases h
        obtain ⟨hin, hle⟩ := floor_mem hr
        exact ⟨hin, hle, hlt⟩
      · cases h
    · cases h
  · intro ⟨hin, hle, hlt⟩
    cases hf : floor es p with
    | none =>
      have hmem : e ∈ es.filter fun e => e.start ≤ p :=
        List.mem_filter.2 ⟨hin, decide_eq_true hle⟩
      rw [List.getLast?_eq_none_iff.1 hf] at hmem
      cases hmem
    | some r =>
      obtain ⟨hr, -⟩ := floor_mem hf
      have hstart := floor_last hok hf hin hle
      -- the floor starts no earlier, so it starts inside `e` and is `e`
      have heq : r = e := by
        obtain ⟨-, hrp⟩ := floor_mem hf
        refine hok.eq_of_covers hr hin ⟨Nat.le_refl _, hok.lt_stop hr⟩ ?_
        exact ⟨hstart, by omega⟩
      subst heq
      simp only [hlt, if_true]

/-- So is the test for overlap. -/
theorem touches_iff (hok : Ok es) {s last : Nat} (hle : s ≤ last) : touches es s last = true ↔
      ∃ e ∈ es, e.start ≤ last ∧ s < e.stop := by
  unfold touches
  rw [List.any_eq_true]
  cases hl : lookup es s with
  | none =>
    simp only [Bool.and_eq_true, decide_eq_true_eq]
    constructor
    · intro ⟨e, he, hs, hlast⟩
      have := hok.lt_stop he
      exact ⟨e, he, hlast, by omega⟩
    · intro ⟨e, he, hlast, hs⟩
      refine ⟨e, he, ?_, hlast⟩
      by_contra hnot
      have hsome := (lookup_eq_some hok).2 ⟨he, Nat.le_of_not_lt hnot, hs⟩
      rw [hl] at hsome
      cases hsome
  | some r =>
    obtain ⟨hr, hrs, hrlt⟩ := (lookup_eq_some hok).1 hl
    simp only [Bool.and_eq_true, decide_eq_true_eq]
    constructor
    · intro ⟨e, he, hstart, hlast⟩
      refine ⟨e, he, hlast, ?_⟩
      have hpos := hok.lt_stop he
      rcases hok.cases hr he with heq | hbefore | hafter
      · rw [← heq]
        exact hrlt
      · omega
      · omega
    · intro _
      exact ⟨r, hr, Nat.le_refl _, by omega⟩

-- ==== the updates

@[simp] theorem mem_insert :
    a ∈ insert es e ↔ a = e ∨ a ∈ es := by
  unfold insert
  rw [List.mem_append, List.mem_cons, List.mem_filter, List.mem_filter]
  simp only [decide_eq_true_eq]
  constructor
  · rintro (⟨h, -⟩ | h | ⟨h, -⟩)
    · exact .inr h
    · exact .inl h
    · exact .inr h
  · rintro (h | h)
    · exact .inr (.inl h)
    · rcases Nat.lt_or_ge a.start e.start with hlt | hge
      · exact .inl ⟨h, hlt⟩
      · exact .inr (.inr ⟨h, hge⟩)

@[simp] theorem mem_erase {s : Nat} :
    a ∈ erase es s ↔ a ∈ es ∧ a.start ≠ s := by
  unfold erase
  rw [List.mem_filter, decide_eq_true_eq]

theorem Ok.erase (h : Ok es) (s : Nat) : Ok (erase es s) :=
  ⟨h.apart.filter _, fun e he => h.nonempty e (mem_erase.1 he).1⟩

/-- A range that meets no entry may be added. -/
theorem Ok.insert (h : Ok es) (hpos : 0 < e.len)
    (hfree : ∀ a ∈ es, a.stop ≤ e.start ∨ e.stop ≤ a.start) :
    Ok (insert es e) := by
  have hstop : e.start < e.stop := by
    unfold Entry.stop
    omega
  constructor
  · refine List.pairwise_append.2 ⟨h.apart.filter _, ?_, ?_⟩
    · refine List.pairwise_cons.2 ⟨?_, h.apart.filter _⟩
      intro a ha
      obtain ⟨hin, hge⟩ := List.mem_filter.1 ha
      have hge : e.start ≤ a.start := of_decide_eq_true hge
      have hlt := h.lt_stop hin
      rcases hfree a hin with hle | hle
      · omega
      · exact hle
    · intro a ha b hb
      obtain ⟨hin, hlt⟩ := List.mem_filter.1 ha
      have hlt : a.start < e.start := of_decide_eq_true hlt
      have hsep : a.stop ≤ e.start := by
        rcases hfree a hin with hle | hle
        · exact hle
        · omega
      rcases List.mem_cons.1 hb with hb | hb
      · rw [hb]
        exact hsep
      · obtain ⟨-, hge⟩ := List.mem_filter.1 hb
        have hge : e.start ≤ b.start := of_decide_eq_true hge
        omega
  · intro a ha
    rcases mem_insert.1 ha with ha | ha
    · rw [ha]
      exact hpos
    · exact h.nonempty a ha

end RangeMap
