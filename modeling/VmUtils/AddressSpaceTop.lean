import VmUtils.QueryRangeTermination

/-! # The top of the address space

    A region that ends at the top of the address type is stored with the end 0, so
    `end()` of it is 1 and the cursor of `query_range` goes back to the second byte
    of the address space.  If the range reaches more than one byte into that region
    the loop comes to it again and again and never returns; otherwise it returns
    (`queryRange_top_iff`). -/

namespace VmUtils

open Intervals

variable {w : Nat}

/-- The regions of the layout fill the address space up to `top`, where one more
    begins and runs to the end of the address type. -/
structure FilledUpTo (O : OsLayout w) (top : BitVec w) : Prop where
  covers : ∀ x, x < top → ∃ R ∈ O.regions, R.Contains x
  limit_le : ∀ R ∈ O.regions, R.limit ≤ top
  top_dvd : O.pageSize ∣ top.toNat
  wide : 1 < w

/-- A query below `top` answers with its region, and one from `top` on with a part
    of the last region, whose end has wrapped. -/
def AnswersAll (O : OsLayout w) (top : BitVec w) (query : BitVec w → Except Exn (BasicRegion w))
    (x : BitVec w) : Prop :=
  (x < top → O.Answers query x)
    ∧ (top ≤ x → ∃ r, query x = .ok r ∧ top ≤ r.beginAddr ∧ r.beginAddr ≤ x ∧ r.endAddr = 0)

variable {O : OsLayout w} {top last : BitVec w} {query : BitVec w → Except Exn (BasicRegion w)}

/-- Below `top` the cursor moves behind its region. -/
theorem AnswersAll.below {x : BitVec w} (h : AnswersAll O top query x) (hx : x < top) :
    ∃ R ∈ O.regions, ∃ r, query x = .ok r ∧ r.end.toNat = R.limit.toNat + 1
      ∧ x.toNat < R.limit.toNat := by
  obtain ⟨R, hR, hc, r, hquery, -, -, hend⟩ := h.1 hx
  have htop := O.below_top R hR
  refine ⟨R, hR, r, hquery, ?_, hc.2⟩
  show (r.endAddr + 1#w).toNat = _
  rw [hend, BitVec.toNat_add, BitVec.toNat_ofNat, Nat.add_mod_mod, Nat.mod_eq_of_lt htop]

/-- From `top` on it goes back to the second byte. -/
theorem AnswersAll.above (hw : 1 < w) {x : BitVec w} (h : AnswersAll O top query x)
    (hx : top ≤ x) : ∃ r, query x = .ok r ∧ r.end.toNat = 1 := by
  obtain ⟨r, hquery, -, -, hend⟩ := h.2 hx
  refine ⟨r, hquery, ?_⟩
  show (r.endAddr + 1#w).toNat = 1
  have hone : 1 < 2 ^ w := Nat.one_lt_two_pow (by omega)
  have hend' : r.endAddr = 0#w := hend
  rw [hend', BitVec.zero_add, BitVec.toNat_ofNat, Nat.mod_eq_of_lt hone]

/-- **The loop never returns** once its range reaches into the last region: no step
    brings the cursor to the end of the range. -/
theorem usingQueryLoop_forever (hO : FilledUpTo O top) (hinto : top.toNat + 1 < last.toNat)
    (hq : ∀ x, x < last → AnswersAll O top query x) (fuel : Nat) {cur : BitVec w}
    (hcur : cur < last) (acc : List (BasicRegion w)) :
    usingQueryLoop query last fuel cur acc = none := by
  induction fuel generalizing cur acc with
  | zero => rfl
  | succ fuel ih =>
      obtain ⟨r, hquery, hnext⟩ : ∃ r, query cur = .ok r ∧ r.end < last := by
        by_cases hbelow : cur < top
        · obtain ⟨R, hR, r, hquery, hend, -⟩ := (hq cur hcur).below hbelow
          have hle : R.limit.toNat ≤ top.toNat := hO.limit_le R hR
          exact ⟨r, hquery, show r.end.toNat < last.toNat by omega⟩
        · obtain ⟨r, hquery, hend⟩ := (hq cur hcur).above hO.wide (Nat.le_of_not_lt hbelow)
          exact ⟨r, hquery, show r.end.toNat < last.toNat by omega⟩
      rw [usingQueryLoop, if_pos hcur, hquery]
      exact ih hnext _

/-- A cursor behind the first byte of a page is not `top`. -/
theorem FilledUpTo.ne_top (hO : FilledUpTo O top) {x : BitVec w} {n : Nat}
    (hn : O.pageSize ∣ n) (hx : x.toNat = n + 1) : x ≠ top := by
  rintro rfl
  have hdvd := hO.top_dvd
  rw [hx, Nat.dvd_add_right hn] at hdvd
  have := Nat.le_of_dvd Nat.one_pos hdvd
  have := O.two_le
  omega

/-- In front of the last region the loop returns, from any cursor but `top`; by
    induction on the distance to the end of the range. -/
theorem usingQueryLoop_returns_below (hO : FilledUpTo O top) (hfront : last.toNat ≤ top.toNat + 1)
    (hq : ∀ x, x < last → AnswersAll O top query x) {cur : BitVec w} (hne : cur ≠ top)
    (acc : List (BasicRegion w)) :
    ∃ fuel regions, usingQueryLoop query last fuel cur acc = some (.ok regions) := by
  induction hn : last.toNat - cur.toNat using Nat.strong_induction_on generalizing cur acc with
  | _ n ih =>
      by_cases hcur : cur < last
      · have hcur' : cur.toNat < last.toNat := hcur
        have hbelow : cur < top := by
          show cur.toNat < top.toNat
          have hne' : cur.toNat ≠ top.toNat := fun h => hne (BitVec.eq_of_toNat_eq h)
          omega
        obtain ⟨R, hR, r, hquery, hend, hlt⟩ := (hq cur hcur).below hbelow
        obtain ⟨fuel, regions, hrun⟩ := ih (last.toNat - r.end.toNat) (by omega)
          (hO.ne_top (O.limit_dvd R hR) hend) (acc ++ [r]) rfl
        refine ⟨fuel + 1, regions, ?_⟩
        rw [usingQueryLoop, if_pos hcur, hquery]
        exact hrun
      · refine ⟨1, acc, ?_⟩
        rw [usingQueryLoop, if_neg hcur]

/-- **`query_range` up to the top**: where the regions fill the address space, the
    call returns if and only if the range ends by the second byte of the region that
    ends at the top. -/
theorem queryRange_top_iff (O : OsLayout w) (top : BitVec w) (hO : FilledUpTo O top)
    (query : BitVec w → Except Exn (BasicRegion w)) (first last : BitVec w) (hlt : first < last)
    (hq : ∀ x, x < last → AnswersAll O top query x) :
    (∃ fuel regions, queryRangeUsingQuery query fuel first last = some (.ok regions))
      ↔ last.toNat ≤ top.toNat + 1 := by
  have hloop : ∀ fuel, queryRangeUsingQuery query fuel first last
      = usingQueryLoop query last fuel first [] := by
    intro fuel
    rw [queryRangeUsingQuery, addressCast_self, addressCast_self]
  simp only [hloop]
  constructor
  · rintro ⟨fuel, regions, hrun⟩
    refine Nat.le_of_not_lt ?_
    intro hinto
    rw [usingQueryLoop_forever hO hinto hq fuel hlt] at hrun
    cases hrun
  · intro hfront
    by_cases hne : first = top
    · -- one round in the last region, and on from the second byte
      obtain ⟨r, hquery, hend⟩ := (hq first hlt).above hO.wide (by rw [hne]; exact Nat.le_refl _)
      obtain ⟨fuel, regions, hrun⟩ := usingQueryLoop_returns_below hO hfront hq
        (hO.ne_top (Nat.dvd_zero _) hend) [r]
      refine ⟨fuel + 1, regions, ?_⟩
      rw [usingQueryLoop, if_pos hlt, hquery]
      exact hrun
    · exact usingQueryLoop_returns_below hO hfront hq hne []

/-- The sample layout with one more region behind it, up to the top. -/
def sampleTopQuery (x : BitVec 64) : Except Exn (BasicRegion 64) :=
  if x < 0x4000 then sampleQuery x else .ok (.mapped 0x4000 0 ⟨1⟩ false)

theorem sampleTopQuery_answersAll (x : BitVec 64) :
    AnswersAll sampleLayout 0x4000 sampleTopQuery x := by
  constructor
  · intro hx
    obtain ⟨R, hR, hc, r, hquery, hr⟩ := sampleQuery_answers hx
    exact ⟨R, hR, hc, r, (if_pos hx).trans hquery, hr⟩
  · intro hx
    exact ⟨_, if_neg (Nat.not_lt.mpr hx), Nat.le_refl _, hx, rfl⟩

theorem queryRange_top_iff_sample :
    (¬ ∃ fuel regions, queryRangeUsingQuery sampleTopQuery fuel (0x1010 : BitVec 64) 0x5000
        = some (.ok regions))
      ∧ ∃ fuel regions, queryRangeUsingQuery sampleTopQuery fuel (0x1010 : BitVec 64) 0x4001
        = some (.ok regions) := by
  have hO : FilledUpTo sampleLayout 0x4000 := {
    covers := by
      intro x hx
      obtain ⟨R, hR, hc, -⟩ := sampleQuery_answers hx
      exact ⟨R, hR, hc⟩
    limit_le := by decide
    top_dvd := by decide
    wide := by decide }
  have hiff := fun last hlt => queryRange_top_iff sampleLayout 0x4000 hO sampleTopQuery 0x1010
    last hlt (fun x _ => sampleTopQuery_answersAll x)
  constructor
  · intro hreturns
    exact absurd ((hiff 0x5000 (by decide)).mp hreturns) (by decide)
  · exact (hiff 0x4001 (by decide)).mpr (by decide)

end VmUtils
