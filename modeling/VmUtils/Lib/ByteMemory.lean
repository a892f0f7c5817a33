import Mathlib

/-! # Byte memory

    A memory gives every address a byte, and an object is the bytes from its
    address on, least significant first.  An object whose bytes are the digits
    of a number reads back as that number (`load_eq_mod`), and neither a store
    nor a block copy changes a byte outside its target (`store_outside`,
    `memcpy_outside`). -/

namespace ByteMemory

/-- The contents of memory. -/
abbrev Memory := Nat → BitVec 8

/-- Byte `i` of a number, counted from the least significant one. -/
def byteOf (x i : Nat) : BitVec 8 := BitVec.ofNat 8 (x / 256 ^ i)

/-- The number in the `n` bytes from `a` on. -/
def Memory.load (m : Memory) (a : Nat) : Nat → Nat
  | 0 => 0
  | n + 1 => (m a).toNat + 256 * m.load (a + 1) n

/-- The memory with the number `x` in the `n` bytes from `a` on. -/
def Memory.store (m : Memory) (a n x : Nat) : Memory :=
  fun c => if a ≤ c ∧ c < a + n then byteOf x (c - a) else m c

/-- `memcpy`: the bytes of the source as they were before the copy. -/
def Memory.memcpy (m : Memory) (dst src n : Nat) : Memory :=
  fun c => if dst ≤ c ∧ c < dst + n then m (src + (c - dst)) else m c

variable {m : Memory} {a dst src n x i : Nat}

theorem byteOf_zero (x : Nat) : byteOf x 0 = BitVec.ofNat 8 x := by
  rw [byteOf, Nat.pow_zero, Nat.div_one]

theorem byteOf_succ (x i : Nat) : byteOf x (i + 1) = byteOf (x / 256) i := by
  rw [byteOf, byteOf, Nat.pow_succ', Nat.div_div_eq_div_mul]

/-- Past the digits of a number all bytes are zero. -/
theorem byteOf_of_lt (h : x < 256 ^ n) (hi : n ≤ i) : byteOf x i = 0 := by
  have hlt : x < 256 ^ i := Nat.lt_of_lt_of_le h (Nat.pow_le_pow_right (by decide) hi)
  rw [byteOf, Nat.div_eq_of_lt hlt]
  rfl

@[simp] theorem byteOf_of_zero (i : Nat) : byteOf 0 i = 0 := by
  rw [byteOf, Nat.zero_div]
  rfl

/-! ## Reading -/

/-- An object that holds the digits of a number reads back as that number. -/
theorem load_eq_mod (h : ∀ i, i < n → m (a + i) = byteOf x i) :
    m.load a n = x % 256 ^ n := by
  induction n generalizing a x with
  | zero => rw [Memory.load, Nat.pow_zero, Nat.mod_one]
  | succ n ih =>
      have hhead : m a = BitVec.ofNat 8 x := by
        rw [← byteOf_zero]
        exact h 0 (Nat.succ_pos n)
      have htail : m.load (a + 1) n = x / 256 % 256 ^ n := by
        refine ih (fun i hi => ?_)
        rw [← byteOf_succ, ← h (i + 1) (Nat.succ_lt_succ hi)]
        congr 1
        omega
      rw [Memory.load, hhead, htail, Nat.pow_succ', Nat.mod_mul]
      rfl

/-! ## Stores and copies -/

theorem store_inside (h : i < n) : m.store a n x (a + i) = byteOf x i := by
  rw [Memory.store, if_pos (by omega)]
  congr 1
  omega

theorem store_outside {c : Nat} (h : c < a ∨ a + n ≤ c) : m.store a n x c = m c := by
  rw [Memory.store, if_neg (by omega)]

theorem memcpy_inside (h : i < n) : m.memcpy dst src n (dst + i) = m (src + i) := by
  rw [Memory.memcpy, if_pos (by omega)]
  congr 1
  omega

theorem memcpy_outside {c : Nat} (h : c < dst ∨ dst + n ≤ c) :
    m.memcpy dst src n c = m c := by
  rw [Memory.memcpy, if_neg (by omega)]

end ByteMemory
