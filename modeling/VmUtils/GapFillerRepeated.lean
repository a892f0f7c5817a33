import VmUtils.QueryRangeResult

/-! # The gap filler applied again

    `fill_region_gaps` inserts a region that begins where the one in front ends,
    as `end()` has it, but ends one byte behind the start of the next one.  By the
    test of the loop itself the gap is still there, so every further call inserts
    as many regions as the first one did (`fillRegionGaps_iterate`). -/

namespace VmUtils

open Intervals

variable {w : Nat}

/-- The neighbours between which `fill_region_gaps` inserts a region. -/
def gapCount : List (BasicRegion w) → Nat
  | [] => 0
  | [_] => 0
  | r :: r' :: rs => (if r'.begin ≠ r.end then 1 else 0) + gapCount (r' :: rs)

theorem gapCount_cons_of_gap {r r' : BasicRegion w} (h : r'.begin ≠ r.end)
    (rs : List (BasicRegion w)) : gapCount (r :: r' :: rs) = gapCount (r' :: rs) + 1 := by
  rw [gapCount, if_pos h, Nat.add_comm]

theorem gapCount_cons_of_touching {r r' : BasicRegion w} (h : r'.begin = r.end)
    (rs : List (BasicRegion w)) : gapCount (r :: r' :: rs) = gapCount (r' :: rs) := by
  rw [gapCount, if_neg (not_not.mpr h), Nat.zero_add]

/-- A call inserts one region for every gap. -/
theorem length_withGaps (rs : List (BasicRegion w)) :
    (withGaps rs).length = rs.length + gapCount rs := by
  induction rs with
  | nil => rfl
  | cons r rs ih =>
      cases rs with
      | nil => rfl
      | cons r' rs =>
          by_cases h : r'.begin ≠ r.end
          · rw [withGaps, if_pos h, gapCount_cons_of_gap h]
            simp [ih]
            omega
          · rw [withGaps, if_neg h, gapCount_cons_of_touching (not_not.mp h)]
            simp [ih]
            omega

/-- **A call leaves as many gaps as there were**: each moves behind the region that
    was inserted for it. -/
theorem gapCount_withGaps (hw : 0 < w) (rs : List (BasicRegion w)) :
    gapCount (withGaps rs) = gapCount rs := by
  induction rs with
  | nil => rfl
  | cons r rs ih =>
      cases rs with
      | nil => rfl
      | cons r' rs =>
          obtain ⟨t, ht⟩ := withGaps_cons r' rs
          by_cases h : r'.begin ≠ r.end
          · have hbehind : r'.begin ≠ (BasicRegion.free r.end r'.begin).end := by
              rw [end_free]
              intro heq
              have hzero : (1 : BitVec w) = 0 := by simpa using heq.symm
              have hone := congrArg BitVec.toNat hzero
              simp [Nat.one_mod_two_pow hw] at hone
            rw [withGaps, if_pos h, ht, gapCount_cons_of_touching rfl, gapCount_cons_of_gap hbehind,
              gapCount_cons_of_gap h, ← ht, ih]
          · rw [withGaps, if_neg h, ht, gapCount_cons_of_touching (not_not.mp h),
              gapCount_cons_of_touching (not_not.mp h), ← ht, ih]

/-- Without a gap the call changes nothing. -/
theorem withGaps_of_no_gap {rs : List (BasicRegion w)} (h : gapCount rs = 0) :
    withGaps rs = rs := by
  induction rs with
  | nil => rfl
  | cons r rs ih =>
      cases rs with
      | nil => rfl
      | cons r' rs =>
          by_cases hgap : r'.begin ≠ r.end
          · rw [gapCount_cons_of_gap hgap] at h
            cases h
          · rw [gapCount_cons_of_touching (not_not.mp hgap)] at h
            rw [withGaps, if_neg hgap, ih h]

theorem gapCount_eq_zero_iff {rs : List (BasicRegion w)} :
    gapCount rs = 0 ↔ ∀ p p', [p, p'] <:+: rs → p'.begin = p.end := by
  refine Iff.trans ?_ (isChain_iff_forall_pair (R := fun p p' : BasicRegion w => p'.begin = p.end))
  induction rs with
  | nil => exact iff_of_true rfl List.isChain_nil
  | cons r rs ih =>
      cases rs with
      | nil => exact iff_of_true rfl (List.isChain_singleton _)
      | cons r' rs =>
          rw [List.isChain_cons_cons, ← ih]
          by_cases hgap : r'.begin ≠ r.end
          · rw [gapCount_cons_of_gap hgap]
            exact iff_of_false (Nat.succ_ne_zero _) (fun h => hgap h.1)
          · rw [gapCount_cons_of_touching (not_not.mp hgap), and_iff_right (not_not.mp hgap)]

/-- **Calls of `fill_region_gaps` on their own result** each insert as many regions
    as the first one; only where that one inserts nothing is the result final. -/
theorem fillRegionGaps_iterate (hw : 0 < w) (regions : List (BasicRegion w)) :
    (∀ k, (fillRegionGaps^[k] regions).length = regions.length + k * gapCount regions)
      ∧ (fillRegionGaps (fillRegionGaps regions) = fillRegionGaps regions
        ↔ ∀ p p', [p, p'] <:+: regions → p'.begin = p.end) := by
  have hgaps : ∀ k, gapCount (fillRegionGaps^[k] regions) = gapCount regions := by
    intro k
    induction k with
    | zero => rfl
    | succ k ih => rw [Function.iterate_succ_apply', fillRegionGaps_eq, gapCount_withGaps hw, ih]
  have hlength : ∀ k,
      (fillRegionGaps^[k] regions).length = regions.length + k * gapCount regions := by
    intro k
    induction k with
    | zero => simp
    | succ k ih =>
        rw [Function.iterate_succ_apply', fillRegionGaps_eq, length_withGaps, hgaps, ih,
          Nat.succ_mul, Nat.add_assoc]
  refine ⟨hlength, ?_⟩
  rw [← gapCount_eq_zero_iff]
  constructor
  · intro h
    have hone : (fillRegionGaps regions).length = regions.length + 1 * gapCount regions := hlength 1
    have htwo : (fillRegionGaps (fillRegionGaps regions)).length
        = regions.length + 2 * gapCount regions := hlength 2
    rw [h] at htwo
    omega
  · intro h
    rw [fillRegionGaps_eq regions, fillRegionGaps_eq,
      withGaps_of_no_gap ((gapCount_withGaps hw regions).trans h)]

/-- Two regions with a page between them: five calls insert five regions. -/
theorem fillRegionGaps_iterate_sample :
    (fillRegionGaps^[5] [BasicRegion.mapped (0x1000 : BitVec 64) 0x2000 ⟨1⟩ false,
      BasicRegion.mapped 0x3000 0x4000 ⟨1⟩ false]).length = 2 + 5 * 1 :=
  (fillRegionGaps_iterate (by decide) _).1 5

end VmUtils
