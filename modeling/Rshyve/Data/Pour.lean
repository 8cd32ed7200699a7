/-
# Values poured over a list of places

`pour m as bs` writes the values `bs` at the places `as`, one after the
other, so a place that is named twice keeps the later value. A copy to
scattered pieces is a pour over the places of all pieces, and what the pieces
are cut into does not show in it (`pour_append`).
-/
import Mathlib

namespace Pour

variable {α β : Type} [DecidableEq α]

def pour (m : α → β) : List α → List β → α → β
  | a :: as, b :: bs => pour (Function.update m a b) as bs
  | _, _ => m

@[simp] theorem pour_nil (m : α → β) (bs : List β) : pour m [] bs = m := rfl

theorem pour_append {as as' : List α} {bs bs' : List β} (m : α → β) (h : as.length = bs.length) :
    pour m (as ++ as') (bs ++ bs') = pour (pour m as bs) as' bs' := by
  induction as generalizing m bs with
  | nil =>
    cases bs with
    | nil => rfl
    | cons b bs => cases h
  | cons a as ih =>
    cases bs with
    | nil => cases h
    | cons b bs => exact ih (Function.update m a b) (Nat.succ.inj h)

theorem pour_of_notMem {a : α} {as : List α} (m : α → β) (bs : List β)
    (h : a ∉ as) : pour m as bs a = m a := by
  induction as generalizing m bs with
  | nil => rfl
  | cons a' as ih =>
    cases bs with
    | nil => rfl
    | cons b bs =>
      rw [List.mem_cons, not_or] at h
      exact (ih _ bs h.2).trans (Function.update_of_ne h.1 b m)

/-- Places that are all different hold what was poured. -/
theorem map_pour {as : List α} {bs : List β} (m : α → β) (hd : as.Nodup)
    (h : as.length = bs.length) : as.map (pour m as bs) = bs := by
  induction as generalizing m bs with
  | nil =>
    cases bs with
    | nil => rfl
    | cons b bs => cases h
  | cons a as ih =>
    cases bs with
    | nil => cases h
    | cons b bs =>
      have hfirst : pour m (a :: as) (b :: bs) a = b :=
        (pour_of_notMem _ bs (List.nodup_cons.1 hd).1).trans (Function.update_self a b m)
      have hrest := ih (Function.update m a b) (List.nodup_cons.1 hd).2 (Nat.succ.inj h)
      rw [List.map_cons, hfirst]
      exact congrArg (b :: ·) hrest

-- ==== windows

/-- The `n` entries of a list from `off` on. -/
def window {γ : Type} (xs : List γ) (off n : Nat) : List γ :=
  (xs.drop off).take n

variable {γ : Type} {xs ys : List γ} {off n : Nat}

theorem window_zero : window xs off 0 = [] := List.take_zero

/-- A window behind the first piece. -/
theorem window_append_of_le (h : xs.length ≤ off) :
    window (xs ++ ys) off n = window ys (off - xs.length) n := by
  unfold window
  rw [List.drop_append, List.drop_eq_nil_of_le h, List.nil_append]

/-- A window that starts in the first piece. -/
theorem window_append (h : off ≤ xs.length) : window (xs ++ ys) off n
      = window xs off n ++ window ys 0 (n - (xs.length - off)) := by
  unfold window
  rw [List.drop_append, List.take_append, List.length_drop, Nat.sub_eq_zero_of_le h]

end Pour
