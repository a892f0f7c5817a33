import Mathlib

/-! # Hexadecimal text

    Reading and writing natural numbers in base sixteen.  `paddedHex` writes
    lower-case digits with leading zeros up to a minimal width, `hexValue`
    reads a run of digits of either case.  The round trip is
    `hexValue_paddedHex`; a reader also needs that the written text is a
    nonempty run of digits (`paddedHex_ne_nil`, `isHexDigit_of_mem_paddedHex`). -/

namespace HexText

/-- The value of a hexadecimal digit, in either case. -/
def digitValue? (c : Char) : Option Nat :=
  if '0' ≤ c ∧ c ≤ '9' then some (c.toNat - '0'.toNat)
  else if 'a' ≤ c ∧ c ≤ 'f' then some (c.toNat - 'a'.toNat + 10)
  else if 'A' ≤ c ∧ c ≤ 'F' then some (c.toNat - 'A'.toNat + 10)
  else none

/-- Membership in the class of hexadecimal digits. -/
def isHexDigit (c : Char) : Bool := (digitValue? c).isSome

/-- The number a run of digits stands for, most significant digit first. -/
def hexValue (cs : List Char) : Nat :=
  cs.foldl (fun v c => 16 * v + (digitValue? c).getD 0) 0

/-- Lower-case hexadecimal with leading zeros up to `width` characters. -/
def paddedHex (width n : Nat) : List Char :=
  List.replicate (width - (Nat.toDigits 16 n).length) '0' ++ Nat.toDigits 16 n

/-- Each of the sixteen written digits reads back as its own value. -/
theorem digitValue?_digitChar {d : Nat} (hd : d < 16) :
    digitValue? (Nat.digitChar d) = some d := by
  have h : ∀ d : Fin 16, digitValue? (Nat.digitChar d) = some d.val := by decide
  exact h ⟨d, hd⟩

/-- Reading one more digit shifts the value read so far. -/
theorem hexValue_concat (cs : List Char) (c : Char) :
    hexValue (cs ++ [c]) = 16 * hexValue cs + (digitValue? c).getD 0 := by
  simp [hexValue]

/-- The digits of `n` read back as `n`. -/
theorem hexValue_toDigits (n : Nat) : hexValue (Nat.toDigits 16 n) = n := by
  induction n using Nat.strongRecOn with
  | ind n ih =>
      by_cases hn : n < 16
      · rw [Nat.toDigits_of_lt_base hn]
        simp [hexValue, digitValue?_digitChar hn]
      · have hlt : n / 16 < n := by omega
        have hmod : n % 16 < 16 := by omega
        rw [Nat.toDigits_of_base_le (by decide) (by omega), hexValue_concat, ih _ hlt,
          digitValue?_digitChar hmod]
        simp only [Option.getD_some]
        omega

/-- Every written digit is a digit. -/
theorem isHexDigit_of_mem_toDigits (n : Nat) :
    ∀ c ∈ Nat.toDigits 16 n, isHexDigit c = true := by
  induction n using Nat.strongRecOn with
  | ind n ih =>
      intro c hc
      by_cases hn : n < 16
      · rw [Nat.toDigits_of_lt_base hn, List.mem_singleton] at hc
        rw [hc, isHexDigit, digitValue?_digitChar hn]
        rfl
      · have hlt : n / 16 < n := by omega
        have hmod : n % 16 < 16 := by omega
        rw [Nat.toDigits_of_base_le (by decide) (by omega)] at hc
        rcases List.mem_append.mp hc with h | h
        · exact ih _ hlt c h
        · rw [List.mem_singleton.mp h, isHexDigit, digitValue?_digitChar hmod]
          rfl

/-- Leading zeros do not change the value. -/
theorem hexValue_replicate_zero (k : Nat) (cs : List Char) :
    hexValue (List.replicate k '0' ++ cs) = hexValue cs := by
  induction k with
  | zero => rfl
  | succ k ih =>
      rw [List.replicate_succ, List.cons_append]
      show hexValue (List.replicate k '0' ++ cs) = hexValue cs
      exact ih

/-- **Round trip.**  The padded text of `n` reads back as `n`. -/
theorem hexValue_paddedHex (width n : Nat) : hexValue (paddedHex width n) = n := by
  rw [paddedHex, hexValue_replicate_zero, hexValue_toDigits]

theorem isHexDigit_of_mem_paddedHex {width n : Nat} :
    ∀ c ∈ paddedHex width n, isHexDigit c = true := by
  intro c hc
  rcases List.mem_append.mp hc with h | h
  · rw [(List.mem_replicate.mp h).2]
    decide
  · exact isHexDigit_of_mem_toDigits n c h

theorem paddedHex_ne_nil (width n : Nat) : paddedHex width n ≠ [] := by
  simp [paddedHex]

end HexText
