import Mathlib

/-! # Pages

    Addresses are cut into pages of `2 ^ k` bytes.  Masking with the negated
    page size rounds an address down (`and_neg_twoPow`), and the pages a byte
    range meets are those from the page of its first byte up to the page of its
    last one (`mem_pagesMeeting`), also with its start rounded down
    (`pagesMeeting_and_neg`). -/

namespace Pages

variable {w : Nat}

/-- The pages of `P` bytes that share a byte with the range `[lo, hi)`. -/
def pagesMeeting (P lo hi : Nat) : Set Nat := {q | ∃ a, lo ≤ a ∧ a < hi ∧ a / P = q}

theorem mem_pagesMeeting {P lo hi q : Nat} (hP : 0 < P) :
    q ∈ pagesMeeting P lo hi ↔ lo < hi ∧ lo / P ≤ q ∧ q * P < hi := by
  constructor
  · rintro ⟨a, hlo, hhi, rfl⟩
    refine ⟨by omega, Nat.div_le_div_right hlo, ?_⟩
    exact Nat.lt_of_le_of_lt (Nat.div_mul_le_self a P) hhi
  · rintro ⟨hlt, hle, hhi⟩
    by_cases h : lo ≤ q * P
    · exact ⟨q * P, h, hhi, Nat.mul_div_cancel q hP⟩
    · refine ⟨lo, Nat.le_refl lo, hlt, Nat.le_antisymm hle ?_⟩
      exact (Nat.le_div_iff_mul_le hP).mpr (by omega)

/-- An empty range meets no page. -/
theorem pagesMeeting_empty {P lo hi : Nat} (h : hi ≤ lo) : pagesMeeting P lo hi = ∅ := by
  ext q
  constructor
  · rintro ⟨a, hlo, hhi, -⟩
    omega
  · intro hq
    exact nomatch hq

/-- Rounding the start down to its page does not add a page. -/
theorem pagesMeeting_round {P lo hi : Nat} (hP : 0 < P) (h : lo < hi) :
    pagesMeeting P (lo / P * P) hi = pagesMeeting P lo hi := by
  have hle : lo / P * P ≤ lo := Nat.div_mul_le_self lo P
  ext q
  rw [mem_pagesMeeting hP, mem_pagesMeeting hP, Nat.mul_div_cancel _ hP]
  constructor
  · rintro ⟨-, h2, h3⟩
    exact ⟨h, h2, h3⟩
  · rintro ⟨-, h2, h3⟩
    exact ⟨Nat.lt_of_le_of_lt hle h, h2, h3⟩

/-- The least page boundary from `x` on. -/
def roundUp (P x : Nat) : Nat := (x + P - 1) / P * P

theorem le_roundUp {P x : Nat} (hP : 0 < P) : x ≤ roundUp P x := by
  have hlt := Nat.lt_div_mul_add hP (a := x + P - 1)
  rw [roundUp]
  omega

theorem roundUp_le {P x b : Nat} (hP : 0 < P) (hb : P ∣ b) (h : x ≤ b) : roundUp P x ≤ b := by
  obtain ⟨j, rfl⟩ := hb
  have hdiv : (x + P - 1) / P ≤ j := by
    refine Nat.le_of_lt_succ ((Nat.div_lt_iff_lt_mul hP).mpr ?_)
    rw [Nat.succ_mul, Nat.mul_comm j P]
    omega
  rw [roundUp, Nat.mul_comm P j]
  exact Nat.mul_le_mul_right P hdiv

/-- Rounding up crosses no page boundary. -/
theorem lt_roundUp_iff {P x b : Nat} (hP : 0 < P) (hb : P ∣ b) : b < roundUp P x ↔ b < x := by
  constructor
  · intro h
    by_contra hle
    exact absurd h (Nat.not_lt.mpr (roundUp_le hP hb (Nat.le_of_not_lt hle)))
  · intro h
    exact Nat.lt_of_lt_of_le h (le_roundUp hP)

/-- From a page boundary on, rounding the end up does not add a page. -/
theorem pagesMeeting_roundUp {P lo hi : Nat} (hP : 0 < P) (hlo : P ∣ lo) :
    pagesMeeting P lo (roundUp P hi) = pagesMeeting P lo hi := by
  ext q
  rw [mem_pagesMeeting hP, mem_pagesMeeting hP, lt_roundUp_iff hP hlo,
    lt_roundUp_iff hP (Dvd.intro_left q rfl)]

/-- The first byte of a page meets that page only. -/
theorem pagesMeeting_byte {P x : Nat} (hP : 0 < P) :
    pagesMeeting P (x / P * P) (x / P * P + 1) = {x / P} := by
  ext q
  rw [mem_pagesMeeting hP, Nat.mul_div_cancel _ hP, Set.mem_singleton_iff]
  constructor
  · rintro ⟨-, h1, h2⟩
    have h3 : q ≤ x / P := Nat.le_of_mul_le_mul_right (Nat.le_of_lt_succ h2) hP
    exact Nat.le_antisymm h3 h1
  · rintro rfl
    exact ⟨Nat.lt_succ_self _, Nat.le_refl _, Nat.lt_succ_self _⟩

/-- The mask `~(P - 1)` is the negated page size. -/
theorem not_sub_one (x : BitVec w) : ~~~(x - 1#w) = -x := by
  rw [BitVec.not_sub_one_eq_not_add_one, BitVec.neg_eq_not_add]

/-- **Rounding down.**  Masking with the negated page size clears the offset. -/
theorem and_neg_twoPow (x : BitVec w) {k : Nat} (hk : k < w) :
    (x &&& -(BitVec.twoPow w k)).toNat = x.toNat / 2 ^ k * 2 ^ k := by
  have hpow : 2 ^ k < 2 ^ w := Nat.pow_lt_pow_right (by decide) hk
  have hpos : 0 < 2 ^ k := Nat.two_pow_pos k
  have hw : (BitVec.twoPow w k).toNat = 2 ^ k := by
    rw [BitVec.toNat_twoPow, Nat.mod_eq_of_lt hpow]
  have hm : (BitVec.twoPow w k - 1#w).toNat = 2 ^ k - 1 := by
    have hone : (1#w).toNat = 1 := by
      rw [BitVec.toNat_ofNat, Nat.mod_eq_of_lt]
      exact Nat.lt_of_le_of_lt hpos hpow
    rw [BitVec.toNat_sub_of_le, hw, hone]
    rw [BitVec.le_def, hw, hone]
    exact hpos
  -- `x` is the sum of its offset and its masked part, which share no bit
  have hand : x &&& (BitVec.twoPow w k - 1#w) &&& (x &&& ~~~(BitVec.twoPow w k - 1#w)) = 0#w := by
    ext i hi
    simp only [BitVec.getElem_and, BitVec.getElem_not, BitVec.getElem_zero]
    cases x[i] <;> cases (BitVec.twoPow w k - 1#w)[i] <;> rfl
  have hor : x &&& (BitVec.twoPow w k - 1#w) ||| (x &&& ~~~(BitVec.twoPow w k - 1#w)) = x := by
    ext i hi
    simp only [BitVec.getElem_and, BitVec.getElem_not, BitVec.getElem_or]
    cases x[i] <;> cases (BitVec.twoPow w k - 1#w)[i] <;> rfl
  have hsum := BitVec.toNat_add_of_and_eq_zero hand
  rw [BitVec.add_eq_or_of_and_eq_zero _ _ hand, hor, not_sub_one, BitVec.toNat_and x, hm,
    Nat.and_two_pow_sub_one_eq_mod] at hsum
  have hdiv := Nat.div_add_mod x.toNat (2 ^ k)
  rw [Nat.mul_comm] at hdiv
  omega

theorem dvd_and_neg_twoPow (x : BitVec w) {k : Nat} (hk : k < w) :
    2 ^ k ∣ (x &&& -(BitVec.twoPow w k)).toNat := by
  rw [and_neg_twoPow x hk]
  exact Dvd.intro_left _ rfl

/-- The length taken from the rounded start on reaches the same end. -/
theorem toNat_add_sub_round {first last : BitVec w} {k : Nat} (hk : k < w)
    (hle : first ≤ last) :
    (first &&& -(BitVec.twoPow w k)).toNat + (last - (first &&& -(BitVec.twoPow w k))).toNat
      = last.toNat := by
  have hdown := and_neg_twoPow first hk
  have hround : first.toNat / 2 ^ k * 2 ^ k ≤ first.toNat := Nat.div_mul_le_self ..
  have hle' : first.toNat ≤ last.toNat := hle
  rw [BitVec.toNat_sub_of_le (by rw [BitVec.le_def]; omega)]
  omega

/-- **A range with its start rounded down** meets the same pages. -/
theorem pagesMeeting_and_neg {first last : BitVec w} {k : Nat} (hk : k < w)
    (hlt : first < last) :
    pagesMeeting (2 ^ k) (first &&& -(BitVec.twoPow w k)).toNat
        ((first &&& -(BitVec.twoPow w k)).toNat
          + (last - (first &&& -(BitVec.twoPow w k))).toNat)
      = pagesMeeting (2 ^ k) first.toNat last.toNat := by
  rw [toNat_add_sub_round hk (BitVec.le_of_lt hlt), and_neg_twoPow first hk]
  exact pagesMeeting_round (Nat.two_pow_pos k) hlt

end Pages
