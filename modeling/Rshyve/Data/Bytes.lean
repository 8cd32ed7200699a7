/-
# Little-endian bytes

Fixed-width little-endian integers as byte lists, and the two facts a
framing needs: the width is what was asked for, and reading the bytes back
gives the number modulo the width.
-/
import Mathlib

namespace Bytes

/-- The low `n` bytes of `x`, least significant first. -/
def le : Nat → Nat → List UInt8
  | 0, _ => []
  | n + 1, x => UInt8.ofNat x :: le n (x / 256)

/-- The number a little-endian byte list denotes. -/
def ofLe : List UInt8 → Nat
  | [] => 0
  | b :: bs => b.toNat + 256 * ofLe bs

@[simp] theorem le_length (n x : Nat) : (le n x).length = n := by
  induction n generalizing x with
  | zero => rfl
  | succ n ih => simp [le, ih]

/-- Reading back `n` bytes of `x` gives `x` modulo `256 ^ n`. -/
theorem ofLe_le (n x : Nat) : ofLe (le n x) = x % 256 ^ n := by
  induction n generalizing x with
  | zero => simp [le, ofLe, Nat.mod_one]
  | succ n ih =>
    have hlow : (UInt8.ofNat x).toNat = x % 256 := by simp
    have hpow : 256 ^ (n + 1) = 256 * 256 ^ n := Nat.pow_succ'
    rw [le, ofLe, ih, hlow, hpow, Nat.mod_mul]

/-- A number that fits is read back as itself. -/
theorem ofLe_le_of_lt {n x : Nat} (h : x < 256 ^ n) : ofLe (le n x) = x := by
  rw [ofLe_le, Nat.mod_eq_of_lt h]

/-- A byte list denotes a number of its width. -/
theorem ofLe_lt (bs : List UInt8) : ofLe bs < 256 ^ bs.length := by
  induction bs with
  | nil => exact Nat.one_pos
  | cons b bs ih =>
    have hb : b.toNat < 256 := b.toNat_lt
    rw [ofLe, List.length_cons, Nat.pow_succ']
    omega

/-- A byte list is the bytes of the number it denotes. -/
theorem le_ofLe (bs : List UInt8) : le bs.length (ofLe bs) = bs := by
  induction bs with
  | nil => rfl
  | cons b bs ih =>
    have hb : b.toNat < 256 := b.toNat_lt
    have hlow : UInt8.ofNat (ofLe (b :: bs)) = b := by
      apply UInt8.toNat.inj
      rw [UInt8.toNat_ofNat', ofLe]
      omega
    have hhigh : ofLe (b :: bs) / 256 = ofLe bs := by
      rw [ofLe]
      omega
    rw [List.length_cons, le, hlow, hhigh, ih]

end Bytes
