import VmUtils.QueryIterator
import VmUtils.HalfOpenRange

/-! # The iterator pair as a half-open range

    The sentinel of the loop is itself the region of the address it was built
    from, and `query` answers for the end of a mapping with that mapping.  Where
    the bounds avoid the ends of mappings the rounds are the cells of
    `[first, last)`; a first bound on such an end adds the mapping in front, and
    a last bound on one drops the mapping that ends there
    (`iteratorLoop_halfOpen_iff`). -/

namespace VmUtils

open Intervals Walk

variable {L : Listing} {first last : BitVec 64}

/-- The cells with a byte in `[first, last)`, in order. -/
def Listing.cellsMeeting (L : Listing) (first last : BitVec 64) : List (BasicRegion 64) :=
  L.cells.filter (fun c => c.SharesByte first last)

/-- Two loops that end have the same rounds, whatever their fuel. -/
theorem iteratorLoop_unique {query : BitVec 64 → Except Exn (BasicRegion 64)} {n n' : Nat}
    {x x' : Except Exn (List (BasicRegion 64))} (h : iteratorLoop query n first last = some x)
    (h' : iteratorLoop query n' first last = some x') : x = x' := by
  rw [iteratorLoop] at h h'
  cases hfirst : QueryIterator.ofAddress query first with
  | error e =>
      rw [hfirst] at h h'
      rw [← Option.some.inj h, ← Option.some.inj h']
  | ok it =>
      cases hlast : QueryIterator.ofAddress query last with
      | error e =>
          rw [hfirst, hlast] at h h'
          rw [← Option.some.inj h, ← Option.some.inj h']
      | ok e =>
          rw [hfirst, hlast] at h h'
          obtain ⟨s, hs, rfl⟩ := Option.map_eq_some_iff.mp h
          obtain ⟨s', hs', rfl⟩ := Option.map_eq_some_iff.mp h'
          rw [walk_unique hs hs']

/-- The region of a line is a cell. -/
theorem region_mem_cellsFrom {l : MapsLine} {lines : List MapsLine} (hl : l ∈ lines)
    (prev : BitVec 64) : l.region ∈ cellsFrom prev lines := by
  induction lines generalizing prev with
  | nil => exact nomatch hl
  | cons m ms ih =>
      rcases List.mem_cons.mp hl with rfl | hl
      · exact mem_cellsFrom_cons.mpr (Or.inr (Or.inl rfl))
      · exact mem_cellsFrom_cons.mpr (Or.inr (Or.inr (ih hl m.endAddr)))

/-- A used cell is the region of a line. -/
theorem cellsFrom_used {c : BasicRegion 64} (hused : c.used = true) {lines : List MapsLine}
    {prev : BitVec 64} (hc : c ∈ cellsFrom prev lines) : ∃ l ∈ lines, c = l.region := by
  induction lines generalizing prev with
  | nil => exact nomatch hc
  | cons m ms ih =>
      rcases mem_cellsFrom_cons.mp hc with ⟨-, rfl⟩ | rfl | hc
      · cases hused
      · exact ⟨m, List.mem_cons_self .., rfl⟩
      · obtain ⟨l, hl, rfl⟩ := ih hc
        exact ⟨l, List.mem_cons_of_mem _ hl, rfl⟩

/-- The cell of a mapping's end is the mapping. -/
theorem find?_reaches_end {l : MapsLine} (hl : l ∈ L.lines) :
    L.cells.find? (Reaches l.endAddr) = some l.region := by
  rw [Listing.cells, find?_cellsFrom (Nat.zero_le _),
    if_pos ⟨l, hl, Or.inr (Nat.le_refl _)⟩, scanRegion_at_end 0 L.ascending hl]

/-- Away from the ends of mappings a cell reaches what lies in front of its end. -/
theorem reaches_iff_lt {a : BitVec 64} (ha : ∀ l ∈ L.lines, l.endAddr ≠ a)
    {c : BasicRegion 64} (hc : c ∈ L.cells) : Reaches a c = true ↔ a < c.endAddr := by
  rw [Reaches]
  by_cases hused : c.used = true
  · obtain ⟨l, hl, rfl⟩ := cellsFrom_used hused hc
    have hne := ha l hl
    rw [if_pos hused, decide_eq_true_eq]
    show a ≤ l.endAddr ↔ a < l.endAddr
    constructor
    · intro hle
      bv_omega
    · intro hlt
      bv_omega
  · rw [if_neg hused, decide_eq_true_eq]

/-- The cells that meet the range, by their bounds. -/
theorem cellsMeeting_eq_filter (L : Listing) (hlt : first < last) :
    L.cellsMeeting first last
      = L.cells.filter (fun c => decide (first.toNat < cellHi c ∧ cellLo c < last.toNat)) := by
  refine List.filter_congr ?_
  intro c hc
  have hbytes : c.beginAddr < c.endAddr := L.cells_ascending.nonempty c hc
  rw [decide_eq_decide, region_sharesByte_iff, and_iff_right hlt, and_iff_left hbytes]
  rfl

/-- The cell that reaches the start of a cell begins there, or behind it. -/
theorem le_begin_of_reaches {s c : BasicRegion 64} (hs : s ∈ L.cells) (hc : c ∈ L.cells)
    (hreach : s.beginAddr < c.endAddr) : s.beginAddr ≤ c.beginAddr := by
  rcases L.cells_ascending.trichotomy s hs c hc with heq | hle | hle
  · rw [heq]
    exact Nat.le_refl _
  · have hle' : s.endAddr ≤ c.beginAddr := hle
    have hbytes : s.beginAddr < s.endAddr := L.cells_ascending.nonempty s hs
    bv_omega
  · have hle' : c.endAddr ≤ s.beginAddr := hle
    bv_omega

/-- With no mapping ending at a bound, the cells up to the one of `last` are
    those that meet the range. -/
theorem cellsMeeting_eq {pre mid post : List (BasicRegion 64)} {r r' : BasicRegion 64}
    (hlt : first < last) (hcells : L.cells = pre ++ (mid ++ r' :: post))
    (hhead : (mid ++ [r']).head? = some r) (hr : L.cells.find? (Reaches first) = some r)
    (hr' : L.cells.find? (Reaches last) = some r') (hpre : ∀ c ∈ pre, Reaches first c = false)
    (hmid : ∀ c ∈ mid, Reaches last c = false) (hstart : ∃ c ∈ L.cells, c.beginAddr = last)
    (hoff : ∀ l ∈ L.lines, l.endAddr ≠ first ∧ l.endAddr ≠ last) :
    mid = L.cellsMeeting first last := by
  have hmem : ∀ c, c ∈ pre ∨ c ∈ mid → c ∈ L.cells := by
    intro c hc
    rw [hcells, List.mem_append, List.mem_append]
    exact hc.imp_right Or.inl
  have hfirst : ∀ c ∈ L.cells, Reaches first c = true ↔ first < c.endAddr :=
    fun c hc => reaches_iff_lt (fun l hl => (hoff l hl).1) hc
  have hlast : ∀ c ∈ L.cells, Reaches last c = true ↔ last < c.endAddr :=
    fun c hc => reaches_iff_lt (fun l hl => (hoff l hl).2) hc
  have hsegment : Ascending cellLo cellHi (pre ++ (mid ++ r' :: post)) :=
    hcells ▸ L.cells_ascending
  have hfilter := hsegment.filter_segment (a := first.toNat) (b := last.toNat) ?_ ?_ ?_ ?_
  · rw [cellsMeeting_eq_filter L hlt, hcells]
    exact hfilter.symm
  · -- the cells in front of the segment end before the range
    intro c hc
    refine Nat.le_of_not_lt (fun hlt => ?_)
    have hreach := (hfirst c (hmem c (Or.inl hc))).mpr hlt
    rw [hpre c hc] at hreach
    cases hreach
  · intro c hc
    rw [hhead] at hc
    obtain rfl := Option.some.inj hc
    exact (hfirst r (List.mem_of_find?_eq_some hr)).mp (List.find?_some hr)
  · intro c hc
    refine Nat.le_of_not_lt (fun hlt => ?_)
    have hreach := (hlast c (hmem c (Or.inr hc))).mpr hlt
    rw [hmid c hc] at hreach
    cases hreach
  · -- the sentinel does not begin in front of `last`
    obtain ⟨s, hs, rfl⟩ := hstart
    have hmem' := List.mem_of_find?_eq_some hr'
    exact le_begin_of_reaches hs hmem' ((hlast r' hmem').mp (List.find?_some hr'))

/-- Where the loop visits the cells of the range no mapping ends at a bound. -/
theorem ends_of_cellsMeeting {pre mid post : List (BasicRegion 64)} {r r' : BasicRegion 64}
    (hlt : first < last) (hcells : L.cells = pre ++ (mid ++ r' :: post))
    (hhead : (mid ++ [r']).head? = some r) (hr : L.cells.find? (Reaches first) = some r)
    (hr' : L.cells.find? (Reaches last) = some r')
    (heq : mid = L.cellsMeeting first last) :
    ∀ l ∈ L.lines, l.endAddr ≠ first ∧ l.endAddr ≠ last := by
  intro l hl
  have hbytes := L.begin_lt_end l hl
  constructor
  · rintro rfl
    -- the loop begins with the mapping that ends at `first`
    obtain rfl : l.region = r := Option.some.inj ((find?_reaches_end hl).symm.trans hr)
    have hshare : l.region.SharesByte l.endAddr last := by
      cases mid with
      | nil =>
          obtain rfl : r' = l.region := Option.some.inj hhead
          have hreach := List.find?_some hr'
          rw [reaches_region, decide_eq_true_eq] at hreach
          exact absurd hlt (Nat.not_lt.mpr hreach)
      | cons x mid =>
          obtain rfl : x = l.region := Option.some.inj hhead
          have hin : l.region ∈ L.cellsMeeting l.endAddr last := heq ▸ List.mem_cons_self ..
          exact of_decide_eq_true (List.mem_filter.mp hin).2
    obtain ⟨-, h1, -⟩ := region_sharesByte_iff.mp hshare
    exact absurd h1 (Nat.lt_irrefl _)
  · rintro rfl
    -- the sentinel is the mapping that ends at `last`
    obtain rfl : l.region = r' := Option.some.inj ((find?_reaches_end hl).symm.trans hr')
    have hmeets : l.region ∈ L.cellsMeeting first l.endAddr :=
      List.mem_filter.mpr ⟨region_mem_cellsFrom hl 0, decide_eq_true
        (region_sharesByte_iff.mpr ⟨hlt, hlt, hbytes, hbytes⟩)⟩
    rw [← heq] at hmeets
    have hsorted := L.cells_ascending.hi_lt
    rw [hcells] at hsorted
    have hsegment := (List.pairwise_append.mp hsorted).2.1
    have hself := (List.pairwise_append.mp hsegment).2.2 _ hmeets _ (List.mem_cons_self ..)
    exact absurd hself (Nat.lt_irrefl _)

/-- **The iterator pair** visits exactly the cells of `[first, last)`, in order,
    if and only if no mapping ends at `first` or at `last`. -/
theorem iteratorLoop_halfOpen_iff (ps : PageSize) (L : Listing) (hal : L.PageAligned ps)
    (proc : Process) (u : BitVec 64 → Uninit)
    (hopen : proc.openFile (mapsPath proc.getpid) = some L.text) (first last : BitVec 64)
    (hlt : first < last) (hstart : ∃ c ∈ L.cells, c.begin = last) :
    (∃ fuel trace,
        iteratorLoop (fun x => queryLocal 64 proc (u x) x) fuel first last = some (.ok trace)
          ∧ trace.dropLast = L.cellsMeeting first last)
      ↔ ∀ l ∈ L.lines, l.endAddr ≠ first ∧ l.endAddr ≠ last := by
  have hlocal : ∀ x c, queryLocal 64 proc (u x) x = .ok c ↔ L.cells.find? (Reaches x) = some c :=
    fun x c => queryLocal_eq_ok_iff hopen (u x) x c
  have hle : first ≤ last := Nat.le_of_lt hlt
  -- both bounds are reached: a cell begins at `last`
  obtain ⟨s, hs, hsbegin⟩ := hstart
  have hsreach : Reaches last s = true := by
    have hbytes : s.beginAddr < s.endAddr := L.cells_ascending.nonempty s hs
    have hsbegin' : s.beginAddr = last := hsbegin
    rw [Reaches]
    by_cases hused : s.used = true
    · rw [if_pos hused, decide_eq_true_eq]
      bv_omega
    · rw [if_neg hused, decide_eq_true_eq]
      bv_omega
  obtain ⟨r', hr'⟩ := Option.isSome_iff_exists.mp (List.find?_isSome.mpr ⟨s, hs, hsreach⟩)
  obtain ⟨r, hr⟩ := Option.isSome_iff_exists.mp
    (List.find?_isSome.mpr ⟨s, hs, Reaches.mono hle hsreach⟩)
  obtain ⟨pre, mid, post, hcells, hhead, hpre, hmid⟩ := split_of_find? hle hr hr'
  have hseg : mid ++ [r'] <:+: L.cells := ⟨pre, post, by rw [hcells]; simp⟩
  have hrun := hal.iteratorLoop_segment (fun x c h => (hlocal x c).mpr h)
    ((hlocal first r).mpr hr) ((hlocal last r').mpr hr') hhead hseg
  constructor
  · rintro ⟨fuel, trace, htrace, heq⟩
    have hsame : trace = mid ++ [r'] := Except.ok.inj (iteratorLoop_unique htrace hrun)
    rw [hsame, List.dropLast_concat] at heq
    exact ends_of_cellsMeeting hlt hcells hhead hr hr' heq
  · intro hoff
    refine ⟨mid.length + 1, mid ++ [r'], hrun, ?_⟩
    rw [List.dropLast_concat]
    exact cellsMeeting_eq hlt hcells hhead hr hr' hpre hmid ⟨s, hs, hsbegin⟩ hoff

theorem iteratorLoop_halfOpen_iff_sample :
    (∃ fuel trace,
        iteratorLoop (fun x => queryLocal 64 sampleProcess sampleUninit x) fuel
            (0x1800 : BitVec 64) 0x8000 = some (.ok trace)
          ∧ trace.dropLast = sampleListing.cellsMeeting 0x1800 0x8000)
      ↔ ∀ l ∈ sampleListing.lines, l.endAddr ≠ 0x1800 ∧ l.endAddr ≠ 0x8000 :=
  iteratorLoop_halfOpen_iff ⟨12, by decide, by decide⟩ sampleListing ⟨by decide, by decide⟩
    sampleProcess (fun _ => sampleUninit) rfl 0x1800 0x8000 (by decide) (by decide)

/-- With the bounds `0x1800` and `0x4000` the loop ends in front of the mapping
    from `0x2000` to `0x4000`. -/
theorem iteratorLoop_last_dropped :
    ¬ ∃ fuel trace,
      iteratorLoop (fun x => queryLocal 64 sampleProcess sampleUninit x) fuel
          (0x1800 : BitVec 64) 0x4000 = some (.ok trace)
        ∧ trace.dropLast = sampleListing.cellsMeeting 0x1800 0x4000 := by
  rintro ⟨fuel, trace, htrace, heq⟩
  let r := (MapsLine.anonymous 0x1000 0x2000 true false false false).region
  let r' := (MapsLine.anonymous 0x2000 0x4000 true true false false).region
  have hlocal : ∀ x c, queryLocal 64 sampleProcess sampleUninit x = .ok c
      ↔ sampleListing.cells.find? (Reaches x) = some c :=
    fun x c => queryLocal_eq_ok_iff rfl sampleUninit x c
  have hhead : ([r] ++ [r']).head? = some r := rfl
  have hseg : [r] ++ [r'] <:+: sampleListing.cells :=
    ⟨[.free 0 0x1000], [.free 0x4000 0x8000,
      (MapsLine.anonymous 0x8000 0x9000 true false true false).region], by decide⟩
  have hrun := sampleListing_pageAligned.iteratorLoop_segment
    (fun x c h => (hlocal x c).mpr h) ((hlocal 0x1800 r).mpr (by decide))
    ((hlocal 0x4000 r').mpr (by decide)) hhead hseg
  obtain rfl : trace = [r, r'] := Except.ok.inj (iteratorLoop_unique htrace hrun)
  exact absurd heq (by decide)

end VmUtils
