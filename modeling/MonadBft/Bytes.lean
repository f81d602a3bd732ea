import Mathlib.Data.Vector.Basic
import Mathlib.Tactic.Linarith

/-!
# Byte strings

Numbers in a fixed number of bytes, the lowest byte first (`leBytes`, `leNat`), arrays of
bytes of a fixed length cut off a byte string (`firstBytes`, `splitArrays`), and writing
into a buffer at an offset (`writeAt`). Reading back what was written returns it, for
numbers that fit (`leNat_leBytes`) and for arrays (`splitArrays_flatMap`).
-/

namespace MonadBft

open List

abbrev Bytes := List UInt8

abbrev ByteArrayN (n : ℕ) := List.Vector UInt8 n

/-! ## Numbers -/

/-- The lowest `w` bytes of a number, the lowest one first. -/
def leBytes : ℕ → ℕ → Bytes
  | 0, _ => []
  | w + 1, n => UInt8.ofNat n :: leBytes w (n / 256)

/-- The number that bytes write, the lowest one first. -/
def leNat : Bytes → ℕ
  | [] => 0
  | b :: bs => b.toNat + 256 * leNat bs

@[simp] theorem length_leBytes (w n : ℕ) : (leBytes w n).length = w := by
  induction w generalizing n with
  | zero => rfl
  | succ w ih => simp [leBytes, ih]

/-- A number that fits is read back. -/
theorem leNat_leBytes {w n : ℕ} (h : n < 256 ^ w) : leNat (leBytes w n) = n := by
  induction w generalizing n with
  | zero =>
    have : n = 0 := by simpa using h
    simp [leBytes, leNat, this]
  | succ w ih =>
    have hdiv : n / 256 < 256 ^ w := by
      exact Nat.div_lt_of_lt_mul (by omega)
    have hb : (UInt8.ofNat n).toNat = n % 256 := by simp
    rw [leBytes, leNat, ih hdiv, hb]
    omega

/-! ## Arrays -/

variable {n : ℕ}

def firstBytes (n : ℕ) (bs : Bytes) : ByteArrayN n := ⟨(bs ++ List.replicate n 0).take n, by simp⟩

@[simp] theorem firstBytes_append (a : ByteArrayN n) (bs : Bytes) :
    firstBytes n (a.toList ++ bs) = a := by
  apply Subtype.ext
  change ((a.toList ++ bs) ++ List.replicate n 0).take n = a.toList
  rw [append_assoc, take_left' a.toList_length]

/-- The first `k` arrays of `n` bytes each. -/
def splitArrays (n : ℕ) : ℕ → Bytes → List (ByteArrayN n)
  | 0, _ => []
  | k + 1, bs => firstBytes n bs :: splitArrays n k (bs.drop n)

@[simp] theorem length_splitArrays (k : ℕ) (bs : Bytes) : (splitArrays n k bs).length = k := by
  induction k generalizing bs with
  | zero => rfl
  | succ k ih => simp [splitArrays, ih]

/-- Arrays written one after the other are read back. -/
theorem splitArrays_flatMap (as : List (ByteArrayN n)) (rest : Bytes) :
    splitArrays n as.length (as.flatMap List.Vector.toList ++ rest) = as := by
  induction as with
  | nil => rfl
  | cons a as ih =>
    rw [flatMap_cons, append_assoc, length_cons, splitArrays, firstBytes_append,
      drop_left' a.toList_length, ih]

theorem length_flatMap_toList (as : List (ByteArrayN n)) :
    (as.flatMap List.Vector.toList).length = as.length * n := by
  induction as with
  | nil => simp
  | cons a as ih => simp [ih, Nat.succ_mul, Nat.add_comm]

/-! ## Buffers -/

variable {α : Type*} {data l m r : List α}

/-- Write `data` over the buffer from `start` on. -/
def writeAt (buf : List α) (start : ℕ) (data : List α) : List α :=
  buf.take start ++ data ++ buf.drop (start + data.length)

/-- Writing over the middle part of a buffer replaces it. -/
theorem writeAt_append (h : data.length = m.length) :
    writeAt (l ++ m ++ r) l.length data = l ++ data ++ r := by
  have htake : (l ++ m ++ r).take l.length = l := by
    rw [append_assoc, take_left]
  have hdrop : (l ++ m ++ r).drop (l.length + data.length) = r := by
    rw [h, ← length_append, drop_left]
  rw [writeAt, htake, hdrop]

/-- Writing at the start of a part of the buffer that is as long as what is written. -/
theorem writeAt_of_eq {buf : List α} {start : ℕ} (hbuf : buf = l ++ m ++ r)
    (hstart : l.length = start) (hlen : data.length = m.length) :
    writeAt buf start data = l ++ data ++ r := by
  rw [hbuf, ← hstart, writeAt_append hlen]

end MonadBft
