/-
# Locks and their order

A table of locks says who owns each of them. `acquire` waits for a free
lock, `release` is for the owner only. `Tied` ties the table to what the
threads' local states say they hold, and one thread's acquire or release
moves both sides together.

# The order argument

No cycle of waiting threads closes when every thread waits only for locks
above all the ones it holds. `exists_of_ranked` is that argument without
the cycle: from any thread that owns a lock, follow "waits for a lock of"
upwards. The rank grows at every hop, so the walk ends, at a thread that
waits for nobody.
-/
import Mathlib

namespace Conc

open Function

variable {Λ : Type} [DecidableEq Λ]

-- ==== the table

/-- The owner of each lock. -/
abbrev Owners (Λ : Type) := Λ → Option Nat

namespace Owners

/-- Thread `t` takes a lock that is free. -/
def acquire (o : Owners Λ) (t : Nat) (l : Λ) : Option (Owners Λ) :=
  if o l = none then some (update o l (some t)) else none

/-- Thread `t` gives back a lock of its own. -/
def release (o : Owners Λ) (t : Nat) (l : Λ) : Option (Owners Λ) :=
  if o l = some t then some (update o l none) else none

variable {o o' : Owners Λ} {t : Nat} {l : Λ}

theorem acquire_eq_some : o.acquire t l = some o' ↔ o l = none ∧ update o l (some t) = o' := by
  unfold acquire
  split
  next h => simp [h]
  next h => simp [h]

theorem release_eq_some : o.release t l = some o' ↔ o l = some t ∧ update o l none = o' := by
  unfold release
  split
  next h => simp [h]
  next h => simp [h]

end Owners

-- ==== who holds what

variable {L : Type}

/-- The table says what the local states say. -/
def Tied (o : Owners Λ) (holds : L → Λ → Prop) (gh : Nat → L) : Prop :=
  ∀ l t, o l = some t ↔ holds (gh t) l

namespace Tied

variable {o : Owners Λ} {holds : L → Λ → Prop} {gh : Nat → L} {t : Nat} {l : Λ} {x : L}

omit [DecidableEq Λ] in
theorem same (h : Tied o holds gh) (hx : ∀ m, holds x m ↔ holds (gh t) m) :
    Tied o holds (update gh t x) := by
  intro m u
  by_cases hu : u = t
  · subst hu
    rw [update_self, hx m]
    exact h m u
  · rw [update_of_ne hu]
    exact h m u

theorem acquire (h : Tied o holds gh) (hfree : o l = none)
    (hx : ∀ m, holds x m ↔ m = l ∨ holds (gh t) m) :
    Tied (update o l (some t)) holds (update gh t x) := by
  intro m u
  by_cases hm : m = l
  · subst hm
    rw [update_self, Option.some.injEq]
    by_cases hu : u = t
    · subst hu
      rw [update_self, hx m]
      exact ⟨fun _ => .inl rfl, fun _ => rfl⟩
    · rw [update_of_ne hu, ← h m u, hfree]
      exact ⟨fun e => absurd e.symm hu, fun e => by cases e⟩
  · rw [update_of_ne hm]
    by_cases hu : u = t
    · subst hu
      rw [update_self, hx m, h m u]
      exact ⟨.inr, fun e => e.resolve_left hm⟩
    · rw [update_of_ne hu]
      exact h m u

theorem release (h : Tied o holds gh) (hown : o l = some t)
    (hx : ∀ m, holds x m ↔ m ≠ l ∧ holds (gh t) m) :
    Tied (update o l none) holds (update gh t x) := by
  intro m u
  by_cases hm : m = l
  · subst hm
    rw [update_self]
    by_cases hu : u = t
    · subst hu
      rw [update_self, hx m]
      exact ⟨by simp, fun e => absurd rfl e.1⟩
    · rw [update_of_ne hu, ← h m u, hown, Option.some.injEq]
      exact ⟨by simp, fun e => absurd e.symm hu⟩
  · rw [update_of_ne hm]
    by_cases hu : u = t
    · subst hu
      rw [update_self, hx m, h m u]
      exact ⟨fun e => ⟨hm, e⟩, fun e => e.2⟩
    · rw [update_of_ne hu]
      exact h m u

end Tied

-- ==== the order

omit [DecidableEq Λ] in
/-- If every owner has `P` or waits for a lock ranked above all it owns,
somebody's having `P` follows from anybody's owning a lock. -/
theorem exists_of_ranked {o : Owners Λ} {rank : Λ → Nat} {bound : Nat}
    {P : Prop} (hbound : ∀ l, rank l ≤ bound)
    (hwait : ∀ l t, o l = some t → P ∨ ∃ m u, o m = some u ∧ rank l < rank m)
    {l : Λ} {t : Nat} (hown : o l = some t) : P := by
  -- the distance of the lock's rank to the bound shrinks at every hop
  induction hn : bound - rank l using Nat.strongRecOn generalizing l t with
  | _ n ih =>
    rcases hwait l t hown with hP | ⟨m, u, hm, hlt⟩
    · exact hP
    · have hle := hbound m
      exact ih (bound - rank m) (by omega) hm rfl

end Conc
