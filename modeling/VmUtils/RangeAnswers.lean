import VmUtils.RangeRounds

/-! # The answers of `query` and the regions of `query_range` on Linux

    Both read the same file.  The mappings of `query_range` are the mappings that
    `query` answers with somewhere from `first` to `last`, and one more: a mapping
    that begins at `last` behind one that ends there, for which `query` answers
    with the one in front.  The free regions are never the same: a gap of `query`
    begins where a mapping ends, one of `query_range` a byte behind
    (`queryRange_answers`). -/

namespace VmUtils

open Intervals

variable {L : Listing} {ps : PageSize} {first last a : BitVec 64} {l : MapsLine}

/-! ## Mappings -/

theorem mem_adjoining : l ∈ L.adjoining a ↔ l ∈ L.lines ∧ l.beginAddr = a
    ∧ ∃ m ∈ L.lines, m.endAddr = a := by
  rw [Listing.adjoining, List.mem_filter, decide_eq_true_eq]

/-- The end of a mapping is answered by it. -/
theorem answering_end (hl : l ∈ L.lines) : Answering L l.endAddr l := by
  refine ⟨Nat.le_of_lt (L.begin_lt_end l hl), Nat.le_refl _, ?_⟩
  intro m hm hend
  exact L.ascending.eq_of_hi_eq hm hl (congrArg BitVec.toNat hend)

/-- **A mapping that touches the range answers one of its addresses**, its end or
    `last`, unless it begins at `last` where another mapping ends. -/
theorem exists_answering_iff (hle : first ≤ last) (hl : l ∈ L.lines) :
    (∃ a, first ≤ a ∧ a ≤ last ∧ Answering L a l)
      ↔ l.Touches first last ∧ l ∉ L.adjoining last := by
  have hlt := L.begin_lt_end l hl
  constructor
  · rintro ⟨a, h1, h2, hbegin, hend, huniq⟩
    refine ⟨⟨by bv_omega, by bv_omega⟩, ?_⟩
    intro hadj
    obtain ⟨-, hlast, m, hm, hmend⟩ := mem_adjoining.mp hadj
    obtain rfl := huniq m hm (by bv_omega)
    bv_omega
  · rintro ⟨⟨hbegin, hend⟩, hadj⟩
    by_cases hinside : l.endAddr ≤ last
    · exact ⟨l.endAddr, hend, hinside, answering_end hl⟩
    · refine ⟨last, hle, Nat.le_refl _, hbegin, by bv_omega, ?_⟩
      intro m hm hmend
      rcases L.ascending.trichotomy m hm l hl with heq | hfront | hback
      · exact heq
      · -- a mapping that ends at `last` in front of this one
        have hfront' : m.endAddr ≤ l.beginAddr := hfront
        exact absurd (mem_adjoining.mpr ⟨hl, by bv_omega, m, hm, hmend⟩) hadj
      · have hback' : l.endAddr ≤ m.beginAddr := hback
        have hmlt := L.begin_lt_end m hm
        bv_omega

/-- The region of the line that answers is what the scan finds. -/
theorem scanRegion_eq_iff (hl : l ∈ L.lines) :
    scanRegion a 0 L.lines = l.region ↔ Answering L a l := by
  rcases L.scan_cases a with ⟨b, e, heq, hnone⟩ | ⟨m, hm, heq, hans⟩
  · rw [heq]
    refine iff_of_false ?_ (fun h => hnone l hl ⟨h.1, h.2.1⟩)
    intro h
    exact Bool.false_ne_true (congrArg BasicRegion.used h)
  · rw [heq]
    constructor
    · intro h
      obtain rfl : m = l := L.ascending.eq_of_lo_eq hm hl (congrArg (fun r => r.beginAddr.toNat) h)
      exact hans
    · intro h
      rw [answering_unique hm hl hans h]

/-! ## Gaps -/

/-- A scan answers with a region that begins on a page boundary. -/
theorem scanRegion_begin_dvd {prev : BitVec 64} (hprev : ps.bytes ∣ prev.toNat)
    {lines : List MapsLine} (hlines : ∀ l ∈ lines, ps.bytes ∣ l.beginAddr.toNat
      ∧ ps.bytes ∣ l.endAddr.toNat) :
    ps.bytes ∣ (scanRegion a prev lines).beginAddr.toNat := by
  induction lines generalizing prev with
  | nil => exact hprev
  | cons m ms ih =>
      obtain ⟨hbegin, hend⟩ := hlines m (List.mem_cons_self ..)
      rw [scanRegion]
      split
      · exact hprev
      · split
        · exact ih hend (fun l hl => hlines l (List.mem_cons_of_mem _ hl))
        · exact hbegin

/-- A region that the gap filler inserts begins a byte behind a page boundary. -/
theorem withGaps_free_begin (hal : L.PageAligned ps) {lines : List MapsLine}
    (hlines : lines ⊆ L.lines) {r : BasicRegion 64}
    (hr : r ∈ withGaps (lines.map MapsLine.region)) (hfree : r.used = false) :
    ¬ ps.bytes ∣ r.beginAddr.toNat := by
  rcases mem_withGaps.mp hr with hr | ⟨p, p', hpair, -, rfl⟩
  · obtain ⟨l, -, rfl⟩ := List.mem_map.mp hr
    cases hfree
  · obtain ⟨l, hl, rfl⟩ := List.mem_map.mp (hpair.subset (List.mem_cons_self ..))
    have hend := hal.end_dvd l (hlines hl)
    have htop := ps.succ_lt hend
    have hbegin :
        (BasicRegion.free l.region.end p'.begin).beginAddr.toNat = l.endAddr.toNat + 1 := by
      show (l.region.end).toNat = _
      rw [region_end]
      bv_omega
    rw [hbegin, Nat.dvd_add_right hend]
    intro hdvd
    have hone := ps.one_lt
    exact absurd (Nat.le_of_dvd Nat.one_pos hdvd) (Nat.not_le.mpr hone)

/-! ## The two queries -/

/-- **What `query_range` returns is what `query` answers**: its mappings are those
    that `query` answers with from `first` to `last`, and a mapping that begins at
    `last` behind one that ends there; a gap that `query` answers with is never
    among its regions. -/
theorem queryRange_answers (ps : PageSize) (L : Listing) (hal : L.PageAligned ps)
    (hne : L.lines ≠ []) (proc : Process) (handle : Int)
    (hopen : proc.openFile (mapsPath handle) = some L.text) (u : BitVec 64 → Uninit)
    (u' : Uninit) (first last : BitVec 64) (hle : first ≤ last) (ec : ErrorCode) :
    ∃ regions, queryRangeEc 64 proc u' handle first last ec = .ok (regions, ec)
      ∧ (∀ r, r.used = true → (r ∈ regions ↔
        (∃ a, first ≤ a ∧ a ≤ last ∧ queryEc 64 proc (u a) handle a ec = .ok (r, ec))
          ∨ ∃ l ∈ L.adjoining last, r = l.region))
      ∧ ∀ r a, queryEc 64 proc (u a) handle a ec = .ok (r, ec) → r.used = false →
        r ∉ regions := by
  have hquery : ∀ a r, queryEc 64 proc (u a) handle a ec = .ok (r, ec)
      ↔ scanRegion a 0 L.lines = r := by
    intro a r
    rw [queryEc_listing hopen hne, Except.ok.injEq, Prod.mk.injEq, and_iff_left rfl]
  have hlines : collected first last L.lines ⊆ L.lines := fun l hl => (mem_collected.mp hl).1
  refine ⟨_, queryRangeEc_listing hopen hne .., ?_, ?_⟩
  · intro r hused
    simp only [hquery]
    constructor
    · intro hr
      rcases mem_withGaps.mp hr with hr | ⟨p, p', -, -, rfl⟩
      · obtain ⟨l, hl, rfl⟩ := List.mem_map.mp hr
        obtain ⟨hmem, ht⟩ := mem_collected.mp hl
        by_cases hadj : l ∈ L.adjoining last
        · exact Or.inr ⟨l, hadj, rfl⟩
        · obtain ⟨a, h1, h2, hans⟩ := (exists_answering_iff hle hmem).mpr ⟨ht, hadj⟩
          exact Or.inl ⟨a, h1, h2, (scanRegion_eq_iff hmem).mpr hans⟩
      · cases hused
    · intro h
      obtain ⟨l, hl, rfl, ht⟩ : ∃ l ∈ L.lines, r = l.region ∧ l.Touches first last := by
        rcases h with ⟨a, h1, h2, hscan⟩ | ⟨l, hl, rfl⟩
        · rcases L.scan_cases a with ⟨b, e, heq, -⟩ | ⟨l, hl, heq, hans⟩
          · rw [← hscan, heq] at hused
            cases hused
          · refine ⟨l, hl, hscan.symm.trans heq, ?_⟩
            exact ((exists_answering_iff hle hl).mp ⟨a, h1, h2, hans⟩).1
        · obtain ⟨hmem, hbegin, -⟩ := mem_adjoining.mp hl
          have hlt := L.begin_lt_end l hmem
          exact ⟨l, hmem, rfl, by bv_omega, by bv_omega⟩
      exact mem_withGaps.mpr (Or.inl (List.mem_map_of_mem (mem_collected.mpr ⟨hl, ht⟩)))
  · intro r a hr hfree hmem
    rw [hquery] at hr
    refine withGaps_free_begin hal hlines hmem hfree ?_
    rw [← hr]
    exact scanRegion_begin_dvd (Nat.dvd_zero _) (fun l hl => ⟨hal.begin_dvd l hl, hal.end_dvd l hl⟩)

theorem queryRange_answers_sample :
    ∃ regions, queryRangeEc 64 sampleProcess sampleUninit 1 (0x1800 : BitVec 64) 0x2000 {}
        = .ok (regions, {})
      ∧ (∀ r, r.used = true → (r ∈ regions ↔
        (∃ a : BitVec 64, 0x1800 ≤ a ∧ a ≤ 0x2000
          ∧ queryEc 64 sampleProcess sampleUninit 1 a {} = .ok (r, {}))
          ∨ ∃ l ∈ sampleListing.adjoining 0x2000, r = l.region))
      ∧ ∀ r (a : BitVec 64), queryEc 64 sampleProcess sampleUninit 1 a {} = .ok (r, {}) →
        r.used = false → r ∉ regions :=
  queryRange_answers ⟨12, by decide, by decide⟩ sampleListing sampleListing_pageAligned
    (List.cons_ne_nil _ _) sampleProcess 1 rfl (fun _ => sampleUninit) sampleUninit 0x1800 0x2000
    (by decide) {}

end VmUtils
