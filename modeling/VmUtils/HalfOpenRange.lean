import VmUtils.QueryRangeProperties
import VmUtils.UninitLocals

/-! # The range query and the half-open convention

    The documentation of `query_range` speaks of the range `[begin; end)`, but
    the scan stops at a line only if it begins ABOVE `last` and skips one only
    if it ends BELOW `first`.  A mapping that merely touches a bound of the range
    is reported, and the gap filler adds regions without a byte between adjacent
    mappings and behind the last one.  `queryRangeEc_halfOpen_iff` says for which
    bounds none of this shows. -/

namespace VmUtils

open TextStream Intervals

/-- The region has a byte in `[first, last)`. -/
def BasicRegion.SharesByte (first last : BitVec 64) (r : BasicRegion 64) : Prop :=
  ∃ x, first ≤ x ∧ x < last ∧ r.begin ≤ x ∧ x < r.begin + r.size

variable {first last : BitVec 64}

theorem region_sharesByte_iff {r : BasicRegion 64} :
    r.SharesByte first last ↔ first < last ∧ first < r.endAddr ∧ r.beginAddr < last
      ∧ r.beginAddr < r.endAddr := by
  rw [BasicRegion.SharesByte, begin_add_size]
  exact common_address_iff

instance region_decidableSharesByte (first last : BitVec 64) (r : BasicRegion 64) :
    Decidable (r.SharesByte first last) :=
  decidable_of_iff _ region_sharesByte_iff.symm

/-- The regions of lines and those between neighbouring lines. -/
theorem withGaps_sharesByte_iff {C : List MapsLine} :
    (∀ r ∈ withGaps (C.map MapsLine.region), r.SharesByte first last)
      ↔ (∀ l ∈ C, l.region.SharesByte first last)
        ∧ ∀ p p', [p, p'] <:+: C → p'.beginAddr ≠ p.endAddr + 1 →
          (BasicRegion.free (p.endAddr + 1) p'.beginAddr).SharesByte first last := by
  constructor
  · intro h
    constructor
    · intro l hl
      exact h _ (mem_withGaps.mpr (Or.inl (List.mem_map_of_mem hl)))
    · intro p p' hpair hne
      exact h _ (mem_withGaps.mpr
        (Or.inr ⟨p.region, p'.region, List.IsInfix.map _ hpair, hne, rfl⟩))
  · rintro ⟨hlines, hgaps⟩ r hr
    rcases mem_withGaps.mp hr with hr | ⟨q, q', hpair, hne, rfl⟩
    · obtain ⟨l, hl, rfl⟩ := List.mem_map.mp hr
      exact hlines l hl
    · obtain ⟨p, p', hp, rfl, rfl⟩ := pair_infix_map hpair
      exact hgaps p p' hp hne

/-! ## The collected lines -/

/-- A collected line has a byte in the range unless it only touches a bound. -/
theorem collected_sharesByte_iff (L : Listing) (hlt : first < last) :
    (∀ l ∈ collected first last L.lines, l.region.SharesByte first last)
      ↔ ∀ l ∈ L.lines, l.endAddr ≠ first ∧ l.beginAddr ≠ last := by
  constructor
  · intro h l hl
    have hbe := L.begin_lt_end l hl
    by_contra hon
    have htouch : l.Touches first last := by
      constructor <;> bv_omega
    obtain ⟨-, h1, h2, -⟩ := region_sharesByte_iff.mp (h l (mem_collected.mpr ⟨hl, htouch⟩))
    have h1' : first < l.endAddr := h1
    have h2' : l.beginAddr < last := h2
    bv_omega
  · intro h l hl
    obtain ⟨hmem, hb, he⟩ := mem_collected.mp hl
    obtain ⟨hfirst, hlast⟩ := h l hmem
    refine region_sharesByte_iff.mpr ⟨hlt, ?_, ?_, L.begin_lt_end l hmem⟩
    · show first < l.endAddr
      bv_omega
    · show l.beginAddr < last
      bv_omega

/-- Two collected lines are neighbours in the selection, or the last line is
    followed by itself. -/
theorem pair_collected (L : Listing) {p p' : MapsLine} :
    [p, p'] <:+: collected first last L.lines
      ↔ [p, p'] <:+: selected first last L.lines
        ∨ p = p' ∧ L.lines.getLast? = some p ∧ p.Touches first last := by
  cases hz : L.lines.getLast? with
  | none =>
      rw [collected, repeatedLast, hz]
      simp
  | some z =>
      rw [collected, repeatedLast_eq first last hz]
      by_cases ht : z.Touches first last
      · -- the selection ends with `z`, so the pair at the back is `z` twice
        obtain ⟨init, hinit⟩ := List.getLast?_eq_some_iff.mp hz
        have hsel : selected first last L.lines
            = init.filter (fun l => decide (l.Touches first last)) ++ [z] := by
          rw [selected_eq_filter L.ascending, hinit, List.filter_append]
          simp [ht]
        rw [if_pos ht, hsel, pair_infix_concat]
        refine or_congr_right ?_
        constructor
        · rintro ⟨rfl, rfl⟩
          exact ⟨rfl, rfl, ht⟩
        · rintro ⟨rfl, hp, -⟩
          obtain rfl := Option.some.inj hp
          exact ⟨rfl, rfl⟩
      · rw [if_neg ht, List.append_nil]
        refine (or_iff_left ?_).symm
        rintro ⟨-, hp, ht'⟩
        exact ht (Option.some.inj hp ▸ ht')

/-- Between neighbours of the selection the gap filler leaves the range only
    where one line begins at the end of another. -/
theorem selected_gaps_iff (L : Listing) (hlt : first < last) :
    (∀ p p', [p, p'] <:+: selected first last L.lines → p'.beginAddr ≠ p.endAddr + 1 →
        (BasicRegion.free (p.endAddr + 1) p'.beginAddr).SharesByte first last)
      ↔ ∀ l ∈ L.lines, ∀ l' ∈ L.lines, l.endAddr = l'.beginAddr →
        l.endAddr < first ∨ last < l.endAddr := by
  constructor
  · intro h l hl l' hl' heq
    have hbe := L.begin_lt_end l hl
    have hbe' := L.begin_lt_end l' hl'
    by_contra hin
    have hsel : l ∈ selected first last L.lines :=
      mem_selected.mpr ⟨hl, by constructor <;> bv_omega⟩
    have hsel' : l' ∈ selected first last L.lines :=
      mem_selected.mpr ⟨hl', by constructor <;> bv_omega⟩
    have hpair := (selected_ascending L first last).pair_of_touching hsel hsel'
      (congrArg BitVec.toNat heq)
    obtain ⟨-, -, -, hbytes⟩ := region_sharesByte_iff.mp (h l l' hpair (by bv_omega))
    have hbytes' : l.endAddr + 1 < l'.beginAddr := hbytes
    bv_omega
  · intro h p p' hpair hne
    have hp := mem_selected.mp (hpair.subset (List.mem_cons_self ..))
    have hp' := mem_selected.mp (hpair.subset (List.mem_cons_of_mem _ (List.mem_cons_self ..)))
    have hle : p.endAddr ≤ p'.beginAddr := by
      have hsorted := (selected_ascending L first last).sorted.sublist hpair.sublist
      exact (List.pairwise_cons.mp hsorted).1 p' (List.mem_singleton_self p')
    obtain ⟨-, hfirst⟩ := hp.2
    obtain ⟨hlast, -⟩ := hp'.2
    have hbe' := L.begin_lt_end p' hp'.1
    have hapart := h p hp.1 p' hp'.1
    refine region_sharesByte_iff.mpr ⟨hlt, ?_, ?_, ?_⟩
    · show first < p'.beginAddr
      bv_omega
    · show p.endAddr + 1 < last
      bv_omega
    · show p.endAddr + 1 < p'.beginAddr
      bv_omega

/-- The gap between the last line and itself wraps around. -/
theorem repeated_gap_iff (hlt : first < last) {z : MapsLine} (hz : z.beginAddr < z.endAddr) :
    (z.beginAddr ≠ z.endAddr + 1 →
        (BasicRegion.free (z.endAddr + 1) z.beginAddr).SharesByte first last)
      ↔ z.endAddr = BitVec.allOnes 64 ∧ (z.beginAddr = 0 ∨ first < z.beginAddr) := by
  have htop : BitVec.allOnes 64 = 0xFFFFFFFFFFFFFFFF := by decide
  rw [region_sharesByte_iff, and_iff_right hlt, htop]
  show (z.beginAddr ≠ z.endAddr + 1 →
      first < z.beginAddr ∧ z.endAddr + 1 < last ∧ z.endAddr + 1 < z.beginAddr) ↔ _
  constructor
  · intro h
    by_cases hne : z.beginAddr = z.endAddr + 1
    · constructor
      · bv_omega
      · exact Or.inl (by bv_omega)
    · obtain ⟨h1, -, h3⟩ := h hne
      exact ⟨by bv_omega, Or.inr h1⟩
  · rintro ⟨he, hb⟩ hne
    rcases hb with hb | hb
    · exact absurd (by rw [hb, he]; rfl) hne
    · exact ⟨hb, by bv_omega, by bv_omega⟩

/-! ## The result -/

/-- Bounds for which the range query keeps to `[first, last)`: no line touches
    one from outside, no two adjacent lines meet in the range, and the last line
    is not collected twice or the region behind it wraps around into the range. -/
structure ClearBounds (u : Uninit) (L : Listing) (first last : BitVec 64) : Prop where
  off_bounds : ∀ l ∈ L.lines, l.endAddr ≠ first ∧ l.beginAddr ≠ last
  no_seam : ∀ l ∈ L.lines, ∀ l' ∈ L.lines, l.endAddr = l'.beginAddr →
    l.endAddr < first ∨ last < l.endAddr
  last_apart : ∀ z, L.lines.getLast? = some z → z.Touches first last →
    z.endAddr = BitVec.allOnes 64 ∧ (z.beginAddr = 0 ∨ first < z.beginAddr)
  no_line : L.lines = [] → last < u.beginAddr ∨ 0 < first

/-- The collected lines and the gaps between them, when there are lines. -/
theorem collected_withGaps_iff (u : Uninit) {L : Listing} (hne : L.lines ≠ [])
    (hlt : first < last) :
    (∀ r ∈ withGaps ((collected first last L.lines).map MapsLine.region),
        r.SharesByte first last) ↔ ClearBounds u L first last := by
  rw [withGaps_sharesByte_iff, collected_sharesByte_iff L hlt]
  constructor
  · rintro ⟨hoff, hgaps⟩
    refine ⟨hoff, (selected_gaps_iff L hlt).mp ?_, ?_, fun hnil => absurd hnil hne⟩
    · intro p p' hpair
      exact hgaps p p' ((pair_collected L).mpr (Or.inl hpair))
    · intro z hz ht
      have hzz := (pair_collected L).mpr (Or.inr ⟨rfl, hz, ht⟩)
      exact (repeated_gap_iff hlt (L.begin_lt_end z (List.mem_of_getLast? hz))).mp
        (hgaps z z hzz)
  · rintro ⟨hoff, hseam, hapart, -⟩
    refine ⟨hoff, ?_⟩
    intro p p' hpair
    rcases (pair_collected L).mp hpair with hpair | ⟨rfl, hz, ht⟩
    · exact (selected_gaps_iff L hlt).mpr hseam p p' hpair
    · exact (repeated_gap_iff hlt (L.begin_lt_end p (List.mem_of_getLast? hz))).mpr
        (hapart p hz ht)

/-- Without a line the only region there can be has no byte at all. -/
theorem queryRangeEc_empty_halfOpen_iff {os : Process} {handle : Int} {L : Listing}
    (hopen : os.openFile (mapsPath handle) = some L.text) (hnil : L.lines = []) (u : Uninit)
    (ec : ErrorCode) :
    (∃ regions, queryRangeEc 64 os u handle first last ec = .ok (regions, ec)
        ∧ ∀ r ∈ regions, r.SharesByte first last) ↔ ClearBounds u L first last := by
  have hclear : ClearBounds u L first last ↔ last < u.beginAddr ∨ 0 < first := by
    constructor
    · intro h
      exact h.no_line hnil
    · intro h
      refine ⟨?_, ?_, ?_, fun _ => h⟩ <;> rw [hnil]
      · intro l hl
        cases hl
      · intro l hl
        cases hl
      · intro z hz
        cases hz
  have htext := L.text_of_nil hnil
  rw [hclear, queryRangeEc_open (hopen.trans (congrArg some htext))]
  simp only [addressCast_self, bind, Except.bind, queryRangeImpl_empty]
  by_cases hskip : last < u.beginAddr ∨ 0 < first
  · rw [if_pos hskip]
    refine iff_of_true ⟨[], rfl, ?_⟩ hskip
    intro r hr
    cases hr
  · rw [if_neg hskip]
    refine iff_of_false ?_ hskip
    rintro ⟨regions, hr, hshare⟩
    simp only [initialResult, addressCast_self] at hr
    obtain rfl := (Prod.mk.inj (Except.ok.inj hr)).1
    obtain ⟨-, -, -, hbytes⟩ := region_sharesByte_iff.mp (hshare _ (List.mem_singleton_self _))
    exact absurd hbytes (Nat.not_lt_zero _)

/-- A line that only touches a bound is reported by no region with a byte in the
    range. -/
theorem region_not_sharesByte {l : MapsLine} (h : l.endAddr = first ∨ l.beginAddr = last) :
    ¬ l.region.SharesByte first last := by
  rintro ⟨x, h1, h2, h3, h4⟩
  rw [begin_add_size] at h4
  have h3' : l.beginAddr ≤ x := h3
  have h4' : x < l.endAddr := h4
  rcases h with h | h <;> bv_omega

/-- **The half-open range**: every region of the result has a byte in
    `[first, last)`, and no line that only touches a bound is reported, exactly
    for clear bounds. -/
theorem queryRangeEc_halfOpen_iff (os : Process) (u : Uninit) (handle : Int) (L : Listing)
    (first last : BitVec 64) (ec : ErrorCode)
    (hopen : os.openFile (mapsPath handle) = some L.text) (hlt : first < last) :
    (∃ regions, queryRangeEc 64 os u handle first last ec = .ok (regions, ec)
        ∧ (∀ r ∈ regions, r.SharesByte first last)
        ∧ ∀ l ∈ L.lines, l.endAddr = first ∨ l.beginAddr = last → l.region ∉ regions)
      ↔ ClearBounds u L first last := by
  have hdrop : (∃ regions, queryRangeEc 64 os u handle first last ec = .ok (regions, ec)
        ∧ (∀ r ∈ regions, r.SharesByte first last)
        ∧ ∀ l ∈ L.lines, l.endAddr = first ∨ l.beginAddr = last → l.region ∉ regions)
      ↔ ∃ regions, queryRangeEc 64 os u handle first last ec = .ok (regions, ec)
        ∧ ∀ r ∈ regions, r.SharesByte first last := by
    refine exists_congr (fun regions => and_congr_right (fun _ => and_iff_left_of_imp ?_))
    intro hshare l _ hon hl
    exact region_not_sharesByte hon (hshare _ hl)
  rw [hdrop]
  by_cases hne : L.lines = []
  · exact queryRangeEc_empty_halfOpen_iff hopen hne u ec
  · rw [queryRangeEc_listing hopen hne, ← collected_withGaps_iff u hne hlt]
    exact exists_ok_iff

theorem queryRangeEc_halfOpen_iff_sample :
    (∃ regions, queryRangeEc 64 sampleProcess sampleUninit 1 (0x3000 : BitVec 64) 0x5000 {}
          = .ok (regions, {})
        ∧ (∀ r ∈ regions, r.SharesByte 0x3000 0x5000)
        ∧ ∀ l ∈ sampleListing.lines, l.endAddr = 0x3000 ∨ l.beginAddr = 0x5000 →
          l.region ∉ regions)
      ↔ ClearBounds sampleUninit sampleListing 0x3000 0x5000 :=
  queryRangeEc_halfOpen_iff sampleProcess sampleUninit 1 sampleListing 0x3000 0x5000 {} rfl
    (by decide)

/-- The mapping that ends at `0x4000` is reported for `[0x4000, 0x5000)`. -/
theorem queryRangeEc_touching_reported :
    ¬ ∃ regions, queryRangeEc 64 sampleProcess sampleUninit 1 (0x4000 : BitVec 64) 0x5000 {}
          = .ok (regions, {})
        ∧ (∀ r ∈ regions, r.SharesByte 0x4000 0x5000)
        ∧ ∀ l ∈ sampleListing.lines, l.endAddr = 0x4000 ∨ l.beginAddr = 0x5000 →
          l.region ∉ regions := by
  rintro ⟨regions, hr, hshare, -⟩
  rw [queryRangeEc_listing rfl (by decide)] at hr
  obtain rfl := (Prod.mk.inj (Except.ok.inj hr)).1
  have hline : BasicRegion.mapped 0x2000 0x4000 ⟨3⟩ true
      ∈ withGaps ((collected 0x4000 0x5000 sampleListing.lines).map MapsLine.region) := by
    decide
  obtain ⟨-, hend, -⟩ := region_sharesByte_iff.mp (hshare _ hline)
  exact absurd hend (by decide)

end VmUtils
