/-
# Binary search by a comparator

The loop of the standard library's `binary_search_by`: a base that only
moves up, a window whose size halves, and one last comparison at the base.
The comparator says where an element lies relative to what is looked for.
-/
import Mathlib

namespace Search

variable {α : Type}

-- ==== the algorithm

/-- The halving loop: the base it ends at. The fuel is the window's size,
which every round makes smaller. -/
def settle (f : α → Ordering) (xs : List α) : Nat → Nat → Nat → Nat
  | 0, base, _ => base
  | fuel + 1, base, size =>
    if size ≤ 1 then base
    else
      let half := size / 2
      let mid := base + half
      let base' := if (xs[mid]?).map f = some .gt then base else mid
      settle f xs fuel base' (size - half)

/-- The index of an element that matches, or the index where one would be
inserted. -/
def search (f : α → Ordering) (xs : List α) : Except Nat Nat :=
  if xs.length = 0 then .error 0
  else
    let base := settle f xs xs.length 0 xs.length
    match (xs[base]?).map f with
    | some .eq => .ok base
    | some .lt => .error (base + 1)
    | _ => .error base

/-- An index that is found holds a match, on any list. -/
theorem search_ok {f : α → Ordering} {xs : List α} {i : Nat}
    (h : search f xs = .ok i) : (xs[i]?).map f = some .eq := by
  unfold search at h
  split at h
  · cases h
  dsimp only at h
  split at h
  next heq =>
    cases h
    exact heq
  · cases h
  · cases h

end Search
