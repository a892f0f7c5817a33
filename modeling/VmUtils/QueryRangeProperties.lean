import VmUtils.QueryRangeResult

/-! # Properties of the Linux range query

    Tiling, coverage, single reporting and the agreement of the throwing
    overloads with the `error_code` overloads, each with the exact condition
    under which the code has it. -/

namespace VmUtils

open TextStream Intervals

/-! ## The overloads on a listing -/

theorem queryRangeEc_listing {os : Process} {handle : Int} {L : Listing}
    (hopen : os.openFile (mapsPath handle) = some L.text) (hne : L.lines ≠ [])
    (u : Uninit) (first last : BitVec 64) (ec : ErrorCode) :
    queryRangeEc 64 os u handle first last ec
      = .ok (withGaps ((collected first last L.lines).map MapsLine.region), ec) := by
  have h := queryRangeImpl_text hne u first last
  simp only [queryRangeEc, hopen, addressCast_self, bind, Except.bind, h]
  rfl

theorem queryRange_listing {os : Process} {handle : Int} {L : Listing}
    (hopen : os.openFile (mapsPath handle) = some L.text) (u : Uninit)
    (first last : BitVec 64) :
    queryRange 64 os u handle first last
      = if ∃ m ∈ L.lines, last < m.beginAddr then
          .ok (withGaps ((selected first last L.lines).map MapsLine.region))
        else .error .iosFailure := by
  have h := queryRangeImpl_text_throws L u first last
  simp only [queryRange, hopen, addressCast_self, bind, Except.bind, h]

/-- On an empty listing at most one region is returned, and it ends at zero. -/
theorem queryRangeEc_empty {os : Process} {handle : Int}
    (hopen : os.openFile (mapsPath handle) = some (mapsText [])) (u : Uninit)
    (first last : BitVec 64) (ec : ErrorCode) :
    ∃ regions, queryRangeEc 64 os u handle first last ec = .ok (regions, ec)
      ∧ ∀ r ∈ regions, r.endAddr = 0 := by
  obtain ⟨regions, hloop, hfill, hregions⟩ := queryRangeLoop_empty u first last
  have himpl : queryRangeImpl 64 (IStream.over none (mapsText [])) u first last = .ok regions := by
    rw [queryRangeImpl_eq_map, hloop]
    exact congrArg Except.ok hfill
  refine ⟨regions, ?_, fun r hr => (hregions r hr).2⟩
  simp only [queryRangeEc, hopen, addressCast_self, bind, Except.bind, himpl]
  rfl

/-! ## The regions of the result -/

section WithGaps

variable {w : Nat}

/-- A region of the result was collected or fills the gap between neighbours. -/
theorem mem_withGaps {r : BasicRegion w} {rs : List (BasicRegion w)} :
    r ∈ withGaps rs ↔ r ∈ rs ∨ ∃ p p', [p, p'] <:+: rs ∧ p'.begin ≠ p.end
      ∧ r = BasicRegion.free p.end p'.begin := by
  induction rs with
  | nil => simp [withGaps]
  | cons x rs ih =>
      cases rs with
      | nil =>
          rw [withGaps]
          constructor
          · exact Or.inl
          · rintro (h | ⟨p, p', hp, -⟩)
            · exact h
            · exact absurd hp.length_le (Nat.not_succ_le_self 1)
      | cons y rs =>
          have hpairs : (∃ p p', [p, p'] <:+: x :: y :: rs ∧ p'.begin ≠ p.end
                ∧ r = BasicRegion.free p.end p'.begin)
              ↔ (y.begin ≠ x.end ∧ r = BasicRegion.free x.end y.begin)
                ∨ ∃ p p', [p, p'] <:+: y :: rs ∧ p'.begin ≠ p.end
                  ∧ r = BasicRegion.free p.end p'.begin := by
            simp only [pair_infix_cons, or_and_right, exists_or, and_assoc,
              exists_eq_left, exists_and_left]
          have hx : r ∈ x :: y :: rs ↔ r = x ∨ r ∈ y :: rs := List.mem_cons
          rw [hpairs, hx, withGaps]
          by_cases h : y.begin ≠ x.end
          · rw [if_pos h, List.mem_cons, List.mem_cons, ih, and_iff_right h, or_assoc]
            exact or_congr_right or_left_comm
          · have hno : ¬ (y.begin ≠ x.end ∧ r = BasicRegion.free x.end y.begin) :=
              fun hgap => h hgap.1
            rw [if_neg h, List.mem_cons, ih, or_iff_right hno, or_assoc]

/-- The used regions of the result are the collected ones, in order. -/
theorem filter_used_withGaps {rs : List (BasicRegion w)} (h : ∀ r ∈ rs, r.used = true) :
    (withGaps rs).filter (fun r => r.used) = rs := by
  induction rs with
  | nil => rfl
  | cons x rs ih =>
      have hx : x.used = true := h x (List.mem_cons_self ..)
      have hrs := ih (fun r hr => h r (List.mem_cons_of_mem _ hr))
      cases rs with
      | nil => simp [withGaps, hx]
      | cons y rs =>
          rw [withGaps]
          by_cases hg : y.begin ≠ x.end
          · rw [if_pos hg, List.filter_cons_of_pos hx, List.filter_cons_of_neg, hrs]
            exact Bool.false_ne_true
          · rw [if_neg hg, List.filter_cons_of_pos hx, hrs]

end WithGaps

/-- Membership in the selection, on a listing. -/
theorem mem_selected {L : Listing} {first last : BitVec 64} {l : MapsLine} :
    l ∈ selected first last L.lines ↔ l ∈ L.lines ∧ l.Touches first last := by
  rw [selected_eq_filter L.ascending, List.mem_filter, decide_eq_true_eq]

/-- A line is collected if and only if it touches the range. -/
theorem mem_collected {L : Listing} {first last : BitVec 64} {l : MapsLine} :
    l ∈ collected first last L.lines ↔ l ∈ L.lines ∧ l.Touches first last := by
  rw [collected, List.mem_append, mem_selected, mem_repeatedLast]
  constructor
  · rintro (h | ⟨hz, ht⟩)
    · exact h
    · exact ⟨List.mem_of_getLast? hz, ht⟩
  · exact Or.inl

/-! ## Tiling -/

/-- The regions tile an interval: each is nonempty and its size does not wrap,
    each ends where its successor begins, and a free one holds unmapped memory. -/
structure Tiles (L : Listing) (regions : List (BasicRegion 64)) : Prop where
  begin_lt_end : ∀ r ∈ regions, r.begin < r.end
  size_no_wrap : ∀ r ∈ regions, r.begin.toNat + r.size.toNat < 2 ^ 64
  contiguous : regions.IsChain (fun r r' => r.end = r'.begin)
  free_unmapped : ∀ r ∈ regions, r.used = false →
    ∃ a, r.begin ≤ a ∧ a < r.end ∧ ∀ l ∈ L.lines, ¬ l.Contains a

/-- The region inserted between `x` and `y` ends one byte behind the start of
    `y`, because `end()` adds one to the start it was given. -/
theorem not_isChain_withGaps {x y : BasicRegion 64} (hne : y.begin ≠ x.end)
    (rs : List (BasicRegion 64)) :
    ¬ (withGaps (x :: y :: rs)).IsChain (fun r r' => r.end = r'.begin) := by
  obtain ⟨t, ht⟩ := withGaps_cons y rs
  rw [withGaps, if_pos hne, ht]
  intro hchain
  have hgap : (BasicRegion.free x.end y.begin).end = y.begin :=
    (List.isChain_cons_cons.mp (List.isChain_cons_cons.mp hchain).2).1
  rw [end_free] at hgap
  bv_omega

theorem tiles_nil (L : Listing) : Tiles L [] := by
  refine ⟨?_, ?_, List.isChain_nil, ?_⟩ <;> intro r hr <;> exact nomatch hr

/-- The region of one line alone tiles. -/
theorem tiles_region {L : Listing} {ps : PageSize} (hal : L.PageAligned ps) {l : MapsLine}
    (hl : l ∈ L.lines) : Tiles L [l.region] := by
  have hlt := L.begin_lt_end l hl
  have htop := ps.succ_lt (hal.end_dvd l hl)
  refine ⟨?_, ?_, List.isChain_singleton _, ?_⟩
  · intro r hr
    obtain rfl := List.mem_singleton.mp hr
    rw [region_begin, region_end]
    bv_omega
  · intro r hr
    obtain rfl := List.mem_singleton.mp hr
    show l.beginAddr.toNat + (l.endAddr - l.beginAddr).toNat < 2 ^ 64
    bv_omega
  · intro r hr hfree
    obtain rfl := List.mem_singleton.mp hr
    exact nomatch hfree

/-- Lines on page boundaries never look contiguous to the gap filler: `end()`
    of one is not a page boundary. -/
theorem region_begin_ne_end {L : Listing} {ps : PageSize} (hal : L.PageAligned ps)
    {l l' : MapsLine} (hl : l ∈ L.lines) (hl' : l' ∈ L.lines) :
    l'.region.begin ≠ l.region.end := by
  rw [region_begin, region_end]
  intro h
  have htop := ps.succ_lt (hal.end_dvd l hl)
  have hnat : l'.beginAddr.toNat = l.endAddr.toNat + 1 := by bv_omega
  have hdvd := hal.begin_dvd l' hl'
  rw [hnat, Nat.dvd_add_right (hal.end_dvd l hl)] at hdvd
  have hone := ps.one_lt
  exact absurd (Nat.le_of_dvd Nat.one_pos hdvd) (Nat.not_le.mpr hone)

/-- **`query_range(handle, first, last, ec)` tiles an interval** below the last
    line exactly when at most one line touches the range. -/
theorem queryRangeEc_tiles_iff (os : Process) (u : Uninit) (handle : Int) (L : Listing)
    (ps : PageSize) (first last : BitVec 64) (ec : ErrorCode)
    (hopen : os.openFile (mapsPath handle) = some L.text) (hal : L.PageAligned ps)
    (habove : ∃ m ∈ L.lines, last < m.beginAddr) :
    (∃ regions, queryRangeEc 64 os u handle first last ec = .ok (regions, ec)
        ∧ Tiles L regions)
      ↔ ∀ l ∈ L.lines, ∀ l' ∈ L.lines,
          l.Touches first last → l'.Touches first last → l = l' := by
  have hne : L.lines ≠ [] := by
    obtain ⟨m, hm, -⟩ := habove
    exact List.ne_nil_of_mem hm
  have hmem : ∀ l, l ∈ selected first last L.lines ↔ l ∈ L.lines ∧ l.Touches first last :=
    fun _ => mem_selected
  have hsub := selected_ascending L first last
  rw [queryRangeEc_listing hopen hne, collected_of_above habove]
  generalize selected first last L.lines = sel at hmem hsub
  constructor
  · rintro ⟨regions, hr, htiles⟩ l hl l' hl' ht ht'
    obtain rfl := (Prod.mk.inj (Except.ok.inj hr)).1
    have hin : l ∈ sel := (hmem l).mpr ⟨hl, ht⟩
    have hin' : l' ∈ sel := (hmem l').mpr ⟨hl', ht'⟩
    rcases sel with _ | ⟨x, _ | ⟨y, rest⟩⟩
    · exact nomatch hin
    · rw [List.mem_singleton.mp hin, List.mem_singleton.mp hin']
    · -- two neighbours: the region inserted between them overlaps the second
      have hx := (hmem x).mp (List.mem_cons_self ..)
      have hy := (hmem y).mp (List.mem_cons_of_mem _ (List.mem_cons_self ..))
      exact absurd htiles.contiguous
        (not_isChain_withGaps (region_begin_ne_end hal hx.1 hy.1) _)
  · intro huniq
    refine ⟨_, rfl, ?_⟩
    rcases sel with _ | ⟨x, _ | ⟨y, rest⟩⟩
    · exact tiles_nil L
    · exact tiles_region hal ((hmem x).mp (List.mem_cons_self ..)).1
    · have hx := (hmem x).mp (List.mem_cons_self ..)
      have hy := (hmem y).mp (List.mem_cons_of_mem _ (List.mem_cons_self ..))
      have hlt : lineLo x < lineLo y := by
        have hp := (List.pairwise_cons.mp hsub.lo_lt).1
        exact hp y (List.mem_cons_self ..)
      rw [huniq x hx.1 y hy.1 hx.2 hy.2] at hlt
      exact absurd hlt (Nat.lt_irrefl _)

theorem sampleListing_pageAligned : sampleListing.PageAligned ⟨12, by decide, by decide⟩ :=
  ⟨by decide, by decide⟩

theorem queryRangeEc_tiles_iff_sample :
    (∃ regions, queryRangeEc 64 sampleProcess sampleUninit 1 (0x3000 : BitVec 64) 0x3800 {}
          = .ok (regions, {}) ∧ Tiles sampleListing regions)
      ↔ ∀ l ∈ sampleListing.lines, ∀ l' ∈ sampleListing.lines,
          l.Touches 0x3000 0x3800 → l'.Touches 0x3000 0x3800 → l = l' :=
  queryRangeEc_tiles_iff sampleProcess sampleUninit 1 sampleListing ⟨12, by decide, by decide⟩
    0x3000 0x3800 {} rfl sampleListing_pageAligned
    ⟨.anonymous 0x8000 0x9000 true false true false, by simp [sampleListing], by decide⟩

/-- Two adjacent mappings: the region inserted between them begins behind its
    own end. -/
theorem queryRangeEc_sample_not_tiles :
    ¬ ∃ regions, queryRangeEc 64 sampleProcess sampleUninit 1 (0x1800 : BitVec 64) 0x2800 {}
        = .ok (regions, {}) ∧ Tiles sampleListing regions := by
  rintro ⟨regions, hr, htiles⟩
  rw [queryRangeEc_listing rfl (by decide)] at hr
  obtain rfl := (Prod.mk.inj (Except.ok.inj hr)).1
  have hgap : BasicRegion.free 0x2001 0x2000
      ∈ withGaps ((collected 0x1800 0x2800 sampleListing.lines).map MapsLine.region) := by
    decide
  exact absurd (htiles.size_no_wrap _ hgap) (by decide)

/-! ## Coverage -/

/-- Ends do not decrease along the collected lines. -/
theorem collected_sorted (L : Listing) (first last : BitVec 64) :
    (collected first last L.lines).Pairwise (fun l l' => lineHi l ≤ lineHi l') := by
  rw [collected, List.pairwise_append]
  refine ⟨(selected_ascending L first last).hi_lt.imp Nat.le_of_lt, ?_, ?_⟩
  · rw [repeatedLast]
    split
    · split
      · exact List.pairwise_singleton ..
      · exact List.Pairwise.nil
    · exact List.Pairwise.nil
  · intro x hx y hy
    obtain ⟨hz, -⟩ := mem_repeatedLast.mp hy
    exact (L.ascending.le_last hz x (mem_selected.mp hx).1).2

/-- An unmapped byte that is covered lies in the gap behind some collected line,
    at least one byte behind its end, and no collected line ends in between. -/
theorem gap_of_covered {L : Listing} {ps : PageSize} (hal : L.PageAligned ps)
    {first last a : BitVec 64} (ha : ∀ l ∈ L.lines, ¬ l.Contains a)
    (hcov : ∃ r ∈ withGaps ((collected first last L.lines).map MapsLine.region),
      r.begin ≤ a ∧ a < r.begin + r.size) :
    ∃ p ∈ collected first last L.lines, ∃ p' ∈ collected first last L.lines,
      p.endAddr < a ∧ a < p'.beginAddr
        ∧ ∀ m ∈ collected first last L.lines, lineHi m ≤ lineHi p ∨ lineHi p' ≤ lineHi m := by
  obtain ⟨r, hr, hb, he⟩ := hcov
  rw [begin_add_size] at he
  rcases mem_withGaps.mp hr with hr | ⟨q, q', hpair, -, rfl⟩
  · obtain ⟨l, hl, rfl⟩ := List.mem_map.mp hr
    exact absurd ⟨hb, he⟩ (ha l (mem_collected.mp hl).1)
  · -- the neighbours are the regions of two lines
    obtain ⟨lines, hlines, heq⟩ := List.infix_map_iff.mp hpair
    obtain ⟨p, rest, rfl, rfl, hrest⟩ := List.map_eq_cons_iff.mp heq.symm
    obtain ⟨p', rest', rfl, rfl, hnil⟩ := List.map_eq_cons_iff.mp hrest
    obtain rfl := List.map_eq_nil_iff.mp hnil
    have hp := hlines.subset (List.mem_cons_self ..)
    have hp' := hlines.subset (List.mem_cons_of_mem _ (List.mem_cons_self ..))
    have htop := ps.succ_lt (hal.end_dvd p (mem_collected.mp hp).1)
    refine ⟨p, hp, p', hp', ?_, he, ?_⟩
    · have hb' : p.endAddr + 1 ≤ a := hb
      bv_omega
    · exact le_or_le_of_neighbours hlines (collected_sorted L first last)

/-- If no line of the range ends between `p` and `p'`, and `p` ends in the range
    in front of `p'`, then the end of `p` is not mapped. -/
theorem end_unmapped {L : Listing} {first last : BitVec 64} {p p' : MapsLine}
    (hp' : p' ∈ L.lines) (hlt : p.endAddr < p'.beginAddr)
    (hbetween : ∀ m ∈ L.lines, m.Touches first last →
      lineHi m ≤ lineHi p ∨ lineHi p' ≤ lineHi m)
    (hfirst : first ≤ p.endAddr) (hlast : p.endAddr < last) :
    ∀ l ∈ L.lines, ¬ l.Contains p.endAddr := by
  rintro l hl ⟨hbegin, hin⟩
  have hp'lt := L.begin_lt_end p' hp'
  have ht : l.Touches first last := ⟨by bv_omega, by bv_omega⟩
  rcases hbetween l hl ht with hle | hle
  · exact absurd hin (Nat.not_lt.mpr hle)
  · have hle' : p'.endAddr ≤ l.endAddr := hle
    rcases L.ascending.trichotomy l hl p' hp' with rfl | h | h
    · bv_omega
    · have h' : l.endAddr ≤ p'.beginAddr := h
      bv_omega
    · have h' : p'.endAddr ≤ l.beginAddr := h
      bv_omega

/-- **`query_range(handle, first, last, ec)` covers the range** exactly when
    every byte of it is mapped. -/
theorem queryRangeEc_covers_iff (os : Process) (u : Uninit) (handle : Int) (L : Listing)
    (ps : PageSize) (first last : BitVec 64) (ec : ErrorCode)
    (hopen : os.openFile (mapsPath handle) = some L.text) (hal : L.PageAligned ps) :
    (∃ regions, queryRangeEc 64 os u handle first last ec = .ok (regions, ec)
        ∧ ∀ a, first ≤ a → a < last → ∃ r ∈ regions, r.begin ≤ a ∧ a < r.begin + r.size)
      ↔ ∀ a, first ≤ a → a < last → ∃ l ∈ L.lines, l.Contains a := by
  by_cases hne : L.lines = []
  · -- no line at all: a region that ends at zero covers nothing
    have hopen' : os.openFile (mapsPath handle) = some (mapsText []) := by
      rw [hopen, Listing.text, hne]
    obtain ⟨regions, hr, hend⟩ := queryRangeEc_empty hopen' u first last ec
    rw [hr, hne]
    constructor
    · rintro ⟨regions', hr', hcov⟩ a hfa hla
      obtain rfl := (Prod.mk.inj (Except.ok.inj hr')).1
      obtain ⟨r, hr, -, hlt⟩ := hcov a hfa hla
      rw [begin_add_size, hend r hr] at hlt
      exact absurd hlt (Nat.not_lt_zero _)
    · intro hmapped
      refine ⟨regions, rfl, ?_⟩
      intro a hfa hla
      obtain ⟨l, hl, -⟩ := hmapped a hfa hla
      exact absurd hl List.not_mem_nil
  · rw [queryRangeEc_listing hopen hne]
    constructor
    · rintro ⟨regions, hr, hcov⟩
      obtain rfl := (Prod.mk.inj (Except.ok.inj hr)).1
      intro a hfa hla
      by_contra hnone
      have ha : ∀ l ∈ L.lines, ¬ l.Contains a := fun l hl hc => hnone ⟨l, hl, hc⟩
      obtain ⟨p, hp, p', hp', hlt, hlt', hbetween⟩ := gap_of_covered hal ha (hcov a hfa hla)
      have hpt := (mem_collected.mp hp).2.2
      -- the gap of `a` begins behind the end of `p`, which is not mapped either
      have hend : ∀ l ∈ L.lines, ¬ l.Contains p.endAddr := by
        have hlast : p.endAddr < last := by bv_omega
        refine end_unmapped (mem_collected.mp hp').1 (by bv_omega) ?_ hpt hlast
        intro m hm ht
        exact hbetween m (mem_collected.mpr ⟨hm, ht⟩)
      -- so the end of `p` would be covered by a gap of its own
      obtain ⟨q, -, q', hq', hqlt, hqlt', hq⟩ :=
        gap_of_covered hal hend (hcov p.endAddr hpt (by bv_omega))
      have hq'lt := L.begin_lt_end q' (mem_collected.mp hq').1
      rcases hq p hp with hle | hle
      · exact absurd hqlt (Nat.not_lt.mpr hle)
      · have hle' : q'.endAddr ≤ p.endAddr := hle
        bv_omega
    · intro hmapped
      refine ⟨_, rfl, ?_⟩
      intro a hfa hla
      obtain ⟨l, hl, hbegin, hend⟩ := hmapped a hfa hla
      have ht : l.Touches first last := ⟨by bv_omega, by bv_omega⟩
      have hin : l ∈ collected first last L.lines := mem_collected.mpr ⟨hl, ht⟩
      refine ⟨l.region, mem_withGaps.mpr (Or.inl (List.mem_map_of_mem hin)), hbegin, ?_⟩
      rw [begin_add_size]
      exact hend

theorem queryRangeEc_covers_iff_sample :
    (∃ regions, queryRangeEc 64 sampleProcess sampleUninit 1 (0x1800 : BitVec 64) 0x3000 {}
          = .ok (regions, {})
        ∧ ∀ a, 0x1800 ≤ a → a < 0x3000 → ∃ r ∈ regions, r.begin ≤ a ∧ a < r.begin + r.size)
      ↔ ∀ a, 0x1800 ≤ a → a < 0x3000 → ∃ l ∈ sampleListing.lines, l.Contains a :=
  queryRangeEc_covers_iff sampleProcess sampleUninit 1 sampleListing ⟨12, by decide, by decide⟩
    0x1800 0x3000 {} rfl sampleListing_pageAligned

/-- A range inside a gap: the vector is empty. -/
theorem queryRangeEc_sample_not_covered :
    ¬ ∃ regions, queryRangeEc 64 sampleProcess sampleUninit 1 (0x6000 : BitVec 64) 0x7000 {}
          = .ok (regions, {})
        ∧ ∀ a, 0x6000 ≤ a → a < 0x7000 → ∃ r ∈ regions, r.begin ≤ a ∧ a < r.begin + r.size := by
  rintro ⟨regions, hr, hcov⟩
  rw [queryRangeEc_listing rfl (by decide)] at hr
  obtain rfl := (Prod.mk.inj (Except.ok.inj hr)).1
  have hnil : withGaps ((collected 0x6000 0x7000 sampleListing.lines).map MapsLine.region) = [] := by
    decide
  obtain ⟨r, hr, -⟩ := hcov 0x6000 (by decide) (by decide)
  rw [hnil] at hr
  exact nomatch hr

/-! ## The overloads compared -/

/-- **The throwing overloads agree with the `error_code` overloads** exactly up
    to the last line: `query` up to its end, `query_range` below its start.
    Beyond, the loop meets the end of the text and the stream throws. -/
theorem overloads_agree_iff (os : Process) (u u' : Uninit) (handle : Int) (L : Listing)
    (z : MapsLine) (a first last : BitVec 64) (ec : ErrorCode)
    (hopen : os.openFile (mapsPath handle) = some L.text) (hz : L.lines.getLast? = some z) :
    ((∃ r, queryEc 64 os u handle a ec = .ok (r, ec) ∧ query 64 os u' handle a = .ok r)
        ↔ a ≤ z.endAddr)
      ∧ ((∃ rs, queryRangeEc 64 os u handle first last ec = .ok (rs, ec)
          ∧ queryRange 64 os u' handle first last = .ok rs)
        ↔ last < z.beginAddr) := by
  have hmem : z ∈ L.lines := List.mem_of_getLast? hz
  have hne : L.lines ≠ [] := List.ne_nil_of_mem hmem
  have hle : ∀ m ∈ L.lines, m.beginAddr ≤ z.beginAddr ∧ m.endAddr ≤ z.endAddr :=
    L.ascending.le_last hz
  have hzlt := L.begin_lt_end z hmem
  rw [queryEc_listing hopen hne, query_listing hopen, queryRangeEc_listing hopen hne,
    queryRange_listing hopen]
  constructor
  · constructor
    · rintro ⟨r, -, hr⟩
      by_cases h : ∃ m ∈ L.lines, a < m.beginAddr ∨ a ≤ m.endAddr
      · obtain ⟨m, hm, hlt | hlt⟩ := h
        · have := (hle m hm).1
          bv_omega
        · have := (hle m hm).2
          bv_omega
      · rw [if_neg h] at hr
        exact nomatch hr
    · intro ha
      refine ⟨_, rfl, ?_⟩
      rw [if_pos ⟨z, hmem, Or.inr ha⟩]
  · constructor
    · rintro ⟨rs, -, hr⟩
      by_cases h : ∃ m ∈ L.lines, last < m.beginAddr
      · obtain ⟨m, hm, hlt⟩ := h
        have := (hle m hm).1
        bv_omega
      · rw [if_neg h] at hr
        exact nomatch hr
    · intro hlast
      have habove : ∃ m ∈ L.lines, last < m.beginAddr := ⟨z, hmem, hlast⟩
      refine ⟨_, rfl, ?_⟩
      rw [if_pos habove, collected_of_above habove]

theorem overloads_agree_iff_sample :
    ((∃ r, queryEc 64 sampleProcess sampleUninit 1 (0x1800 : BitVec 64) {} = .ok (r, {})
          ∧ query 64 sampleProcess sampleUninit 1 (0x1800 : BitVec 64) = .ok r)
        ↔ (0x1800 : BitVec 64) ≤ 0x9000)
      ∧ ((∃ rs, queryRangeEc 64 sampleProcess sampleUninit 1 (0x1800 : BitVec 64) 0x3000 {}
            = .ok (rs, {})
          ∧ queryRange 64 sampleProcess sampleUninit 1 (0x1800 : BitVec 64) 0x3000 = .ok rs)
        ↔ (0x3000 : BitVec 64) < 0x8000) :=
  overloads_agree_iff sampleProcess sampleUninit sampleUninit 1 sampleListing
    (.anonymous 0x8000 0x9000 true false true false) 0x1800 0x1800 0x3000 {} rfl rfl

/-- A range that reaches the last line, and an address above it. -/
theorem overloads_sample_disagree :
    (¬ ∃ r, queryEc 64 sampleProcess sampleUninit 1 (0xa000 : BitVec 64) {} = .ok (r, {})
        ∧ query 64 sampleProcess sampleUninit 1 (0xa000 : BitVec 64) = .ok r)
      ∧ ¬ ∃ rs, queryRangeEc 64 sampleProcess sampleUninit 1 (0x8000 : BitVec 64) 0x9000 {}
          = .ok (rs, {})
        ∧ queryRange 64 sampleProcess sampleUninit 1 (0x8000 : BitVec 64) 0x9000 = .ok rs := by
  rw [query_listing rfl, queryRange_listing rfl, if_neg (by decide), if_neg (by decide)]
  constructor
  · rintro ⟨r, -, hr⟩
    exact nomatch hr
  · rintro ⟨rs, -, hr⟩
    exact nomatch hr

/-! ## Single reporting -/

/-- **`query_range(handle, first, last, ec)` reports each line once** exactly
    when the range does not touch the last line of the listing. -/
theorem queryRangeEc_reports_once_iff (os : Process) (u : Uninit) (handle : Int) (L : Listing)
    (z : MapsLine) (first last : BitVec 64) (ec : ErrorCode)
    (hopen : os.openFile (mapsPath handle) = some L.text) (hz : L.lines.getLast? = some z) :
    (∃ regions, queryRangeEc 64 os u handle first last ec = .ok (regions, ec)
        ∧ ((regions.filter (fun r => r.used)).map BasicRegion.begin).Pairwise (· < ·))
      ↔ ¬ z.Touches first last := by
  have hmem : z ∈ L.lines := List.mem_of_getLast? hz
  have hne : L.lines ≠ [] := List.ne_nil_of_mem hmem
  have hused : ∀ r ∈ (collected first last L.lines).map MapsLine.region, r.used = true := by
    intro r hr
    obtain ⟨l, -, rfl⟩ := List.mem_map.mp hr
    rfl
  have hstarts : ((collected first last L.lines).map MapsLine.region).map BasicRegion.begin
      = (collected first last L.lines).map MapsLine.beginAddr := List.map_map
  have hrep := repeatedLast_eq first last hz
  rw [queryRangeEc_listing hopen hne]
  constructor
  · rintro ⟨regions, hr, hlt⟩ ht
    obtain rfl := (Prod.mk.inj (Except.ok.inj hr)).1
    rw [filter_used_withGaps hused, hstarts, List.pairwise_map, collected, hrep, if_pos ht] at hlt
    -- the last line is selected and then collected again
    have hself := (List.pairwise_append.mp hlt).2.2 z (mem_selected.mpr ⟨hmem, ht⟩) z
      (List.mem_singleton_self z)
    exact absurd hself (Nat.lt_irrefl _)
  · intro ht
    refine ⟨_, rfl, ?_⟩
    rw [filter_used_withGaps hused, hstarts, List.pairwise_map, collected, hrep, if_neg ht,
      List.append_nil, selected_eq_filter L.ascending]
    exact L.ascending.lo_lt.sublist (List.filter_sublist ..)

theorem queryRangeEc_reports_once_iff_sample :
    (∃ regions, queryRangeEc 64 sampleProcess sampleUninit 1 (0x1800 : BitVec 64) 0x3000 {}
          = .ok (regions, {})
        ∧ ((regions.filter (fun r => r.used)).map BasicRegion.begin).Pairwise (· < ·))
      ↔ ¬ (MapsLine.anonymous 0x8000 0x9000 true false true false).Touches 0x1800 0x3000 :=
  queryRangeEc_reports_once_iff sampleProcess sampleUninit 1 sampleListing
    (.anonymous 0x8000 0x9000 true false true false) 0x1800 0x3000 {} rfl rfl

/-- A range inside the last mapping: its region is reported twice. -/
theorem queryRangeEc_sample_reports_twice :
    ¬ ∃ regions, queryRangeEc 64 sampleProcess sampleUninit 1 (0x8000 : BitVec 64) 0x8800 {}
          = .ok (regions, {})
        ∧ ((regions.filter (fun r => r.used)).map BasicRegion.begin).Pairwise (· < ·) := by
  rintro ⟨regions, hr, hlt⟩
  rw [queryRangeEc_listing rfl (by decide)] at hr
  obtain rfl := (Prod.mk.inj (Except.ok.inj hr)).1
  revert hlt
  decide

end VmUtils
