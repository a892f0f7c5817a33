import VmUtils.QueryResult

/-! # What `query_range` returns on Linux

    `fill_region_gaps` inserts one free region between neighbours that do not
    touch (`fillRegionGaps_eq`).  The scan collects the lines that touch the
    closed range `[first, last]`; when it meets the end of the listing the last
    line is collected a second time (`repeatedLast`), or, with exceptions
    enabled, the query throws. -/

namespace VmUtils

open TextStream Intervals

variable {w : Nat}

/-! ## The gap filler -/

/-- The regions with a free region between neighbours that do not touch. -/
def withGaps : List (BasicRegion w) → List (BasicRegion w)
  | [] => []
  | [r] => [r]
  | r :: r' :: rs =>
      if r'.begin ≠ r.end then r :: BasicRegion.free r.end r'.begin :: withGaps (r' :: rs)
      else r :: withGaps (r' :: rs)

/-- Nothing is inserted in front of the first region. -/
theorem withGaps_cons (r : BasicRegion w) (rs : List (BasicRegion w)) :
    ∃ t, withGaps (r :: rs) = r :: t := by
  cases rs with
  | nil => exact ⟨[], rfl⟩
  | cons r' rs =>
      rw [withGaps]
      by_cases h : r'.begin ≠ r.end
      · rw [if_pos h]
        exact ⟨_, rfl⟩
      · rw [if_neg h]
        exact ⟨_, rfl⟩

/-- Inserting behind the element `r` at index `done.length`. -/
theorem insertIdx_behind {α : Type} (done rest : List α) (r g : α) :
    (done ++ r :: rest).insertIdx (done.length + 1) g = done ++ r :: g :: rest := by
  induction done with
  | nil => rfl
  | cons d done ih =>
      rw [List.cons_append, List.length_cons, List.insertIdx_succ_cons, ih]
      rfl

/-- The loop invariant: everything in front of `r` is finished. -/
theorem fillRegionGapsLoop_eq (rs : List (BasicRegion w)) :
    ∀ (done : List (BasicRegion w)) (r : BasicRegion w),
      fillRegionGapsLoop (done ++ r :: rs) (done.length + 1) = done ++ withGaps (r :: rs) := by
  induction rs with
  | nil =>
      intro done r
      rw [fillRegionGapsLoop, dif_neg (by simp)]
      rfl
  | cons r' rs ih =>
      intro done r
      have hlen : done.length + 1 < (done ++ r :: r' :: rs).length := by simp
      have hcur : (done ++ r :: r' :: rs)[done.length + 1] = r' := by
        simp [List.getElem_append_right]
      have hprev : (done ++ r :: r' :: rs)[done.length + 1 - 1] = r := by
        simp [List.getElem_append_right]
      rw [fillRegionGapsLoop, dif_pos hlen]
      simp only [hcur, hprev, withGaps]
      by_cases h : r'.begin ≠ r.end
      · -- the vector grows: `r` and the inserted region are finished
        rw [if_pos h, if_pos h]
        have hstep := ih (done ++ [r, BasicRegion.free r.end r'.begin]) r'
        rw [insertIdx_behind]
        simpa using hstep
      · rw [if_neg h, if_neg h]
        have hstep := ih (done ++ [r]) r'
        simpa using hstep

/-- **`fill_region_gaps`** interleaves the vector with its gaps. -/
theorem fillRegionGaps_eq (regions : List (BasicRegion w)) :
    fillRegionGaps regions = withGaps regions := by
  cases regions with
  | nil =>
      rw [fillRegionGaps, fillRegionGapsLoop, dif_neg (by simp)]
      rfl
  | cons r rs => exact fillRegionGapsLoop_eq rs [] r

/-! ## The scan at 64 bits -/

/-- A line touches the closed range the scan looks at. -/
def MapsLine.Touches (first last : BitVec 64) (l : MapsLine) : Prop :=
  l.beginAddr ≤ last ∧ first ≤ l.endAddr

instance (first last : BitVec 64) (l : MapsLine) : Decidable (l.Touches first last) :=
  inferInstanceAs (Decidable (_ ∧ _))

/-- The lines collected before the scan stops. -/
def selected (first last : BitVec 64) : List MapsLine → List MapsLine
  | [] => []
  | l :: ls =>
      if last < l.beginAddr then []
      else if l.endAddr < first then selected first last ls
      else l :: selected first last ls

/-- The locals after a scan that did not stop. -/
def localsAfter (first : BitVec 64) : List MapsLine → Locals → Locals
  | [], l => l
  | m :: ms, l =>
      localsAfter first ms
        { beginAddr := m.beginAddr, endAddr := m.endAddr,
          prot := if m.endAddr < first then l.prot else m.perms }

/-- A step at 64 bits, without the casts. -/
theorem queryRangeStep_64 (first last : BitVec 64) (s : Locals × List (BasicRegion 64))
    (b e : BitVec 64) (prot : ProtChars) :
    queryRangeStep 64 first last s b e prot
      = if last < b then .ok (.stop s.2)
        else if e < first then
          .ok (.again ({ beginAddr := b, endAddr := e, prot := s.1.prot }, s.2))
        else .ok (.again ({ beginAddr := b, endAddr := e, prot := prot },
          s.2 ++ [BasicRegion.mapped b e (transformProt prot) (prot 3 != '-')])) := by
  simp only [queryRangeStep, addressCast_self]
  rfl

/-- The scan collects the selected lines and stops at the first line above. -/
theorem queryRangeScan_eq (first last : BitVec 64) (lines : List MapsLine)
    (s : Locals × List (BasicRegion 64)) :
    queryRangeScan 64 first last lines s
      = if ∃ m ∈ lines, last < m.beginAddr then
          .ok (.stop (s.2 ++ (selected first last lines).map MapsLine.region))
        else .ok (.again (localsAfter first lines s.1,
          s.2 ++ (selected first last lines).map MapsLine.region)) := by
  induction lines generalizing s with
  | nil =>
      rw [if_neg (by rintro ⟨m, hm, -⟩; exact nomatch hm)]
      simp [queryRangeScan, scanLines, localsAfter, selected]
  | cons m ms ih =>
      show followedBy (queryRangeStep 64 first last s m.beginAddr m.endAddr m.perms)
        (queryRangeScan 64 first last ms) = _
      rw [queryRangeStep_64, selected]
      by_cases hb : last < m.beginAddr
      · rw [if_pos hb, if_pos ⟨m, List.mem_cons_self .., hb⟩, if_pos hb]
        simp [followedBy]
      · have hiff : (∃ n ∈ m :: ms, last < n.beginAddr) ↔ ∃ n ∈ ms, last < n.beginAddr := by
          simp only [List.mem_cons, exists_eq_or_imp, or_iff_right hb]
        simp only [if_neg hb, hiff, localsAfter]
        by_cases he : m.endAddr < first
        · simp only [if_pos he]
          exact ih _
        · have hstep := ih ({ beginAddr := m.beginAddr, endAddr := m.endAddr, prot := m.perms },
            s.2 ++ [m.region])
          simp only [List.append_assoc, List.singleton_append] at hstep
          simp only [if_neg he, List.map_cons]
          exact hstep

/-- After a scan over a nonempty listing the locals are those of the last line;
    its characters have been read if the line was collected. -/
theorem localsAfter_last (first : BitVec 64) {lines : List MapsLine} {z : MapsLine}
    (hz : lines.getLast? = some z) (l : Locals) :
    (localsAfter first lines l).beginAddr = z.beginAddr
      ∧ (localsAfter first lines l).endAddr = z.endAddr
      ∧ (¬ z.endAddr < first → (localsAfter first lines l).prot = z.perms) := by
  induction lines generalizing l with
  | nil => exact nomatch hz
  | cons m ms ih =>
      cases ms with
      | nil =>
          obtain rfl : m = z := Option.some.inj hz
          refine ⟨rfl, rfl, ?_⟩
          intro he
          exact if_neg he
      | cons m' ms =>
          rw [List.getLast?_cons_cons] at hz
          exact ih hz _

/-- On an ascending listing the selected lines are those that touch the range. -/
theorem selected_eq_filter {first last : BitVec 64} {lines : List MapsLine}
    (hasc : Ascending lineLo lineHi lines) :
    selected first last lines = lines.filter (fun l => decide (l.Touches first last)) := by
  induction lines with
  | nil => rfl
  | cons m ms ih =>
      have hlt : m.beginAddr < m.endAddr := hasc.head_lt
      have hle : ∀ l ∈ ms, m.endAddr ≤ l.beginAddr := hasc.head_le
      rw [selected]
      by_cases hb : last < m.beginAddr
      · rw [if_pos hb]
        refine (List.filter_eq_nil_iff.mpr ?_).symm
        intro l hl
        have hlb : last < l.beginAddr := by
          rcases List.mem_cons.mp hl with rfl | hl
          · exact hb
          · have := hle l hl
            bv_omega
        simp only [decide_eq_true_eq]
        rintro ⟨h, -⟩
        bv_omega
      · rw [if_neg hb]
        by_cases he : m.endAddr < first
        · rw [if_pos he, List.filter_cons_of_neg, ih hasc.tail]
          simp only [decide_eq_true_eq]
          rintro ⟨-, h⟩
          bv_omega
        · rw [if_neg he, List.filter_cons_of_pos, ih hasc.tail]
          simp only [decide_eq_true_eq]
          exact ⟨by bv_omega, by bv_omega⟩

theorem selected_ascending (L : Listing) (first last : BitVec 64) :
    Ascending lineLo lineHi (selected first last L.lines) := by
  rw [selected_eq_filter L.ascending]
  exact L.ascending.sublist (List.filter_sublist ..)

/-- What the round at the end of the text collects once more. -/
def repeatedLast (first last : BitVec 64) (lines : List MapsLine) : List MapsLine :=
  match lines.getLast? with
  | some z => if z.Touches first last then [z] else []
  | none => []

theorem repeatedLast_eq (first last : BitVec 64) {lines : List MapsLine} {z : MapsLine}
    (hz : lines.getLast? = some z) :
    repeatedLast first last lines = if z.Touches first last then [z] else [] := by
  rw [repeatedLast, hz]

theorem mem_repeatedLast {first last : BitVec 64} {lines : List MapsLine} {l : MapsLine} :
    l ∈ repeatedLast first last lines ↔ lines.getLast? = some l ∧ l.Touches first last := by
  cases hz : lines.getLast? with
  | none =>
      rw [repeatedLast, hz]
      simp
  | some z =>
      rw [repeatedLast_eq first last hz]
      by_cases ht : z.Touches first last
      · rw [if_pos ht, List.mem_singleton]
        constructor
        · rintro rfl
          exact ⟨rfl, ht⟩
        · rintro ⟨h, -⟩
          exact (Option.some.inj h).symm
      · rw [if_neg ht]
        constructor
        · intro h
          exact absurd h List.not_mem_nil
        · rintro ⟨h, ht'⟩
          exact absurd (Option.some.inj h ▸ ht') ht

/-- The regions collected from a listing when errors go to `ec`. -/
def collected (first last : BitVec 64) (lines : List MapsLine) : List MapsLine :=
  selected first last lines ++ repeatedLast first last lines

/-- The vector with which `query_range_impl` leaves its loop. -/
def roundRegions : Round (Locals × List (BasicRegion w)) (List (BasicRegion w)) →
    List (BasicRegion w)
  | .stop regions => regions
  | .again s => s.2

theorem queryRangeImpl_eq_map (maps : IStream Exn) (u : Uninit) (first last : BitVec 64) :
    queryRangeImpl w maps u first last
      = ((forLines (queryRangeLoop w first last) maps (u.locals, [])).map roundRegions).map
          fillRegionGaps := by
  rw [queryRangeImpl]
  match forLines (queryRangeLoop w first last) maps (u.locals, []) with
  | .error e => rfl
  | .ok (.stop r) => rfl
  | .ok (.again s) => rfl

/-- **The vector in front of the gap filler**, for a nonempty listing. -/
theorem queryRangeLoop_collected {L : Listing} (hne : L.lines ≠ []) (u : Uninit)
    (first last : BitVec 64) :
    (forLines (queryRangeLoop 64 first last) (IStream.over none L.text) (u.locals, [])).map
        roundRegions
      = .ok ((collected first last L.lines).map MapsLine.region) := by
  obtain ⟨z, hz⟩ : ∃ z, L.lines.getLast? = some z :=
    ⟨_, List.getLast?_eq_some_getLast hne⟩
  have hmem : z ∈ L.lines := List.mem_of_getLast? hz
  have hrep := repeatedLast_eq first last hz
  rw [Listing.text, queryRangeLoop_text, queryRangeScan_eq, collected, hrep]
  by_cases hb : ∃ m ∈ L.lines, last < m.beginAddr
  · -- the scan stops: the last line starts above the range
    rw [if_pos hb]
    obtain ⟨m, hm, hlt⟩ := hb
    have hle := (L.ascending.le_last hz m hm).1
    have hnot : ¬ z.Touches first last := by
      rintro ⟨h, -⟩
      have hle' : m.beginAddr ≤ z.beginAddr := hle
      bv_omega
    rw [if_neg hnot, List.append_nil]
    rfl
  · -- the end of the text: one more round on the values of the last line
    rw [if_neg hb]
    obtain ⟨h1, h2, h3⟩ := localsAfter_last first hz u.locals
    have hzb : ¬ last < z.beginAddr := fun h => hb ⟨z, hmem, h⟩
    simp only [followedBy]
    rw [queryRangeStep_64, h1, h2, if_neg hzb]
    by_cases he : z.endAddr < first
    · have hnot : ¬ z.Touches first last := by
        rintro ⟨-, h⟩
        bv_omega
      rw [if_pos he, if_neg hnot, List.append_nil]
      rfl
    · have htouch : z.Touches first last := ⟨by bv_omega, by bv_omega⟩
      rw [if_neg he, if_pos htouch, h3 he, List.map_append]
      rfl

/-- On an empty listing the round at the end of the text collects one region at
    most, used and ending at zero. -/
theorem queryRangeLoop_empty (u : Uninit) (first last : BitVec 64) :
    ∃ regions, (forLines (queryRangeLoop 64 first last) (IStream.over none (mapsText []))
        (u.locals, [])).map roundRegions = .ok regions
      ∧ fillRegionGaps regions = regions
      ∧ ∀ r ∈ regions, r.used = true ∧ r.endAddr = 0 := by
  rw [queryRangeLoop_text]
  show ∃ regions, (queryRangeStep 64 first last (u.locals, []) u.beginAddr 0 u.prot).map _
    = .ok regions ∧ _
  rw [queryRangeStep_64]
  by_cases hb : last < u.beginAddr
  · rw [if_pos hb]
    refine ⟨[], rfl, fillRegionGaps_eq _, ?_⟩
    intro r hr
    exact absurd hr List.not_mem_nil
  · rw [if_neg hb]
    by_cases he : (0 : BitVec 64) < first
    · rw [if_pos he]
      refine ⟨[], rfl, fillRegionGaps_eq _, ?_⟩
      intro r hr
      exact absurd hr List.not_mem_nil
    · rw [if_neg he]
      refine ⟨_, rfl, fillRegionGaps_eq _, ?_⟩
      intro r hr
      obtain rfl := List.mem_singleton.mp hr
      exact ⟨rfl, rfl⟩

/-- **`query_range_impl` on a nonempty listing, errors reported in `ec`.** -/
theorem queryRangeImpl_text {L : Listing} (hne : L.lines ≠ []) (u : Uninit)
    (first last : BitVec 64) :
    queryRangeImpl 64 (IStream.over none L.text) u first last
      = .ok (withGaps ((collected first last L.lines).map MapsLine.region)) := by
  rw [queryRangeImpl_eq_map, queryRangeLoop_collected hne, ← fillRegionGaps_eq]
  rfl

/-- **`query_range_impl` with exceptions enabled** returns exactly if some line
    starts above the range. -/
theorem queryRangeImpl_text_throws (L : Listing) (u : Uninit) (first last : BitVec 64) :
    queryRangeImpl 64 (IStream.over (some .iosFailure) L.text) u first last
      = if ∃ m ∈ L.lines, last < m.beginAddr then
          .ok (withGaps ((selected first last L.lines).map MapsLine.region))
        else .error .iosFailure := by
  rw [queryRangeImpl_eq_map, Listing.text, queryRangeLoop_text_throws, queryRangeScan_eq]
  by_cases hb : ∃ m ∈ L.lines, last < m.beginAddr
  · rw [if_pos hb, if_pos hb, ← fillRegionGaps_eq]
    rfl
  · rw [if_neg hb, if_neg hb]
    rfl

/-- If some line starts above the range nothing is collected twice. -/
theorem collected_of_above {L : Listing} {first last : BitVec 64}
    (h : ∃ m ∈ L.lines, last < m.beginAddr) :
    collected first last L.lines = selected first last L.lines := by
  obtain ⟨m, hm, hlt⟩ := h
  obtain ⟨z, hz⟩ : ∃ z, L.lines.getLast? = some z :=
    ⟨_, List.getLast?_eq_some_getLast (List.ne_nil_of_mem hm)⟩
  have hle : m.beginAddr ≤ z.beginAddr := (L.ascending.le_last hz m hm).1
  have hnot : ¬ z.Touches first last := by
    rintro ⟨h, -⟩
    bv_omega
  rw [collected, repeatedLast_eq first last hz, if_neg hnot, List.append_nil]

end VmUtils
