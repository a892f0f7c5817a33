import VmUtils.IteratorLayout
import VmUtils.IteratorRange
import VmUtils.QueryRangeCoverage
import VmUtils.SharedFlag

/-! # The rounds of an iterator pair and the regions of `query_range`

    A loop over an iterator pair and `query_range` look at the same range in two
    ways.  On Windows and macOS both move a cursor to `end()` of the region it is
    in, and they differ in the region they stop at: the loop stops in front of the
    region of `last`, while `query_range` reports it unless the cursor enters it at
    or behind `last` (`queryRange_rounds`).  On Linux `query_range` reads the file
    once; it has the mappings of the loop and of the iterator it stops at, and
    besides them a mapping that begins at `last` where another one ends, and the
    last one of the file a second time (`linuxQueryRange_mappings`). -/

namespace VmUtils

open Intervals Walk

/-! ## Windows and macOS -/

section Layout

variable {O : OsLayout 64} {query : BitVec 64 → Except Exn (BasicRegion 64)}
  {first last : BitVec 64}

instance (R : OsRegion 64) (x : BitVec 64) : Decidable (R.Contains x) :=
  inferInstanceAs (Decidable (_ ∧ _))

/-- What a loop over an iterator pair that returns has done. -/
theorem iteratorLoop_eq_ok {fuel : Nat} {visited : List (BasicRegion 64)}
    (h : iteratorLoop query fuel first last = some (.ok visited)) :
    ∃ r e its, query first = .ok r ∧ query last = .ok e
      ∧ walk (QueryIterator.next query) (fun it => it.eq (⟨e⟩ : QueryIterator 64)) fuel ⟨r⟩
        = some (.ok its)
      ∧ visited = its.map QueryIterator.region := by
  rw [iteratorLoop, QueryIterator.ofAddress, QueryIterator.ofAddress] at h
  cases hfirst : query first with
  | error e =>
      rw [hfirst] at h
      cases h
  | ok r =>
      cases hlast : query last with
      | error e =>
          rw [hfirst, hlast] at h
          cases h
      | ok e =>
          rw [hfirst, hlast] at h
          obtain ⟨s, hs, hvisited⟩ := Option.map_eq_some_iff.mp h
          cases s with
          | error ex => cases hvisited
          | ok its => exact ⟨r, e, its, rfl, rfl, hs, (Except.ok.inj hvisited).symm⟩

/-- The regions of a trail of iterators are a trail. -/
theorem trail_regions {its : List (QueryIterator 64)} {x : BitVec 64}
    (h : Trail (QueryIterator.ofAddress query) (fun it => it.region.end) x its) :
    Trail query BasicRegion.end x (its.map QueryIterator.region) := by
  induction its generalizing x with
  | nil => trivial
  | cons it its ih =>
      obtain ⟨hask, hrest⟩ := h
      refine ⟨?_, ih hrest⟩
      rw [QueryIterator.ofAddress] at hask
      cases hq : query x with
      | error e =>
          rw [hq] at hask
          cases hask
      | ok r =>
          rw [hq] at hask
          rw [← Except.ok.inj hask]

/-- The rounds of an iterator pair ask for their regions one after the other. -/
theorem iteratorLoop_trail {fuel : Nat} {visited : List (BasicRegion 64)}
    (h : iteratorLoop query fuel first last = some (.ok visited)) :
    Trail query BasicRegion.end first visited := by
  obtain ⟨r, e, its, hfirst, -, hwalk, rfl⟩ := iteratorLoop_eq_ok h
  obtain ⟨rest, rfl, hrest⟩ := @walk_trail _ _ _ (QueryIterator.ofAddress query)
    (fun it => it.region.end) _ _ _ _ hwalk
  exact ⟨hfirst, trail_regions hrest⟩

/-- One round of `query_range`. -/
theorem usingQueryLoop_round {r : BasicRegion 64} {cur : BitVec 64} (hlt : cur < last)
    (hr : query cur = .ok r) (fuel : Nat) (acc : List (BasicRegion 64)) :
    usingQueryLoop query last (fuel + 1) cur acc
      = usingQueryLoop query last fuel r.end (acc ++ [r]) := by
  rw [usingQueryLoop, if_pos hlt, hr]

/-- The cursor has reached the end. -/
theorem usingQueryLoop_stop {cur : BitVec 64} (h : ¬ cur < last) (fuel : Nat)
    (acc : List (BasicRegion 64)) :
    usingQueryLoop query last (fuel + 1) cur acc = some (.ok acc) := by
  rw [usingQueryLoop, if_neg h]

/-- Behind the region of `last` the cursor has reached the end. -/
theorem OsLayout.Reported.not_end_lt {r : BasicRegion 64} {Z : OsRegion 64}
    (h : O.Reported r Z) (hlast : Z.Contains last) : ¬ r.end < last := by
  intro hlt
  have hlt' : r.end.toNat < last.toNat := hlt
  have hin : last.toNat < Z.limit.toNat := hlast.2
  rw [h.end_toNat] at hlt'
  omega

/-- **`query_range` along a chain of regions**, by induction on the regions behind
    the one of the cursor. -/
theorem usingQueryLoop_chain {Z : OsRegion 64} (hlast : Z.Contains last)
    (Rs : List (OsRegion 64)) {vs : List (BasicRegion 64)} {r : BasicRegion 64}
    {R R' : OsRegion 64} {cur : BitVec 64} (hcur : cur < last) (hr : O.Reported r R)
    (htrail : Trail query BasicRegion.end cur (r :: vs))
    (hvs : List.Forall₂ O.Reported vs (R' :: Rs))
    (hchain : (R :: R' :: Rs).IsChain (fun S S' => S.limit = S'.base))
    (hasc : Ascending OsRegion.lo OsRegion.hi (R' :: Rs))
    (hZ : (R' :: Rs).getLast? = some Z) (acc : List (BasicRegion 64)) :
    usingQueryLoop query last (vs.length + 2) cur acc
      = some (.ok (acc ++ if Z.base + 1 < last then r :: vs else (r :: vs).dropLast)) := by
  induction Rs generalizing vs r R R' cur acc with
  | nil =>
      obtain rfl : R' = Z := Option.some.inj hZ
      obtain ⟨z, vs', hz, hnil, rfl⟩ := List.forall₂_cons_right_iff.mp hvs
      obtain rfl := List.forall₂_nil_right_iff.mp hnil
      have hend : r.end = R'.base + 1 := by
        rw [BasicRegion.end, hr.end_eq, (List.isChain_cons_cons.mp hchain).1]
      rw [usingQueryLoop_round hcur htrail.1]
      by_cases hlt : R'.base + 1 < last
      · rw [if_pos hlt]
        rw [← hend] at hlt
        rw [List.length_singleton, usingQueryLoop_round hlt htrail.2.1,
          usingQueryLoop_stop (hz.not_end_lt hlast), List.append_assoc]
        rfl
      · rw [if_neg hlt]
        rw [← hend] at hlt
        exact usingQueryLoop_stop hlt _ _
  | cons R'' Rs ih =>
      obtain ⟨r', vs', hr', hvs', rfl⟩ := List.forall₂_cons_right_iff.mp hvs
      rw [List.getLast?_cons_cons] at hZ
      obtain ⟨hadj, hchain'⟩ := List.isChain_cons_cons.mp hchain
      have hroom := O.two_bytes hr'.mem
      have htop := O.below_top R' hr'.mem
      have hZle : R'.limit.toNat ≤ Z.base.toNat :=
        (List.pairwise_cons.mp hasc.sorted).1 Z (List.mem_of_getLast? hZ)
      have hin : Z.base.toNat ≤ last.toNat := hlast.1
      -- the next cursor is the second byte of the next region
      have hnext : r.end < last := by
        show r.end.toNat < last.toNat
        rw [hr.end_toNat, hadj]
        omega
      have hrest := ih hnext hr' htrail.2 hvs' hchain' hasc.tail hZ (acc ++ [r])
      rw [usingQueryLoop_round hcur htrail.1]
      show usingQueryLoop query last (vs'.length + 2) r.end (acc ++ [r]) = _
      rw [hrest, List.append_assoc]
      by_cases hlt : Z.base + 1 < last
      · rw [if_pos hlt, if_pos hlt]
        rfl
      · rw [if_neg hlt, if_neg hlt]
        rfl

/-- **The rounds and the range**: where the loop over an iterator pair visits the
    regions from `first` to `last`, `query_range` returns them too, without the
    region of `last` if its cursor comes to it at `last` or behind. -/
theorem queryRange_rounds (O : OsLayout 64) (query : BitVec 64 → Except Exn (BasicRegion 64))
    (first last : BitVec 64) (hle : first ≤ last) (hcover : O.Covers first last) (fuel : Nat)
    (visited : List (BasicRegion 64))
    (hrun : iteratorLoop query fuel first last = some (.ok visited))
    (hvisits : List.Forall₂ O.Reported visited (O.between first last)) :
    ∃ fuel', queryRangeUsingQuery query fuel' first last
      = some (.ok (if ∃ Z ∈ O.regions, Z.Contains last ∧ lastCursor first Z < last then visited
          else visited.dropLast)) := by
  have htrail := iteratorLoop_trail hrun
  obtain ⟨R, Rs, Z, hchain⟩ := hcover.exists_chain hle
  rw [hchain.between_eq] at hvisits
  obtain ⟨r, vs, hr, hvs, rfl⟩ := List.forall₂_cons_right_iff.mp hvisits
  -- one region contains `last`
  have hcond : (∃ Z ∈ O.regions, Z.Contains last ∧ lastCursor first Z < last)
      ↔ lastCursor first Z < last := by
    constructor
    · rintro ⟨Z', hZ', hc, hlt⟩
      obtain rfl : Z' = Z :=
        O.ascending.eq_of_contains hZ' hchain.last_region hc hchain.last_mem
      exact hlt
    · intro hlt
      exact ⟨Z, hchain.last_region, hchain.last_mem, hlt⟩
  refine ⟨vs.length + 2, ?_⟩
  rw [queryRangeUsingQuery, addressCast_self, addressCast_self]
  show usingQueryLoop query last (vs.length + 2) first [] = _
  simp only [hcond]
  cases Rs with
  | nil =>
      obtain rfl : R = Z := Option.some.inj hchain.getLast
      obtain rfl := List.forall₂_nil_right_iff.mp hvs
      have hcursor : lastCursor first R = first := if_pos hchain.first_mem.1
      rw [hcursor]
      by_cases hlt : first < last
      · rw [if_pos hlt, usingQueryLoop_round hlt htrail.1, List.length_nil,
          usingQueryLoop_stop (hr.not_end_lt hchain.last_mem)]
        rfl
      · rw [if_neg hlt]
        exact usingQueryLoop_stop hlt _ _
  | cons R' Rs =>
      obtain ⟨hlast, hbehind⟩ := hchain.behind
      have hlt : first < last := Nat.lt_of_lt_of_le hbehind hchain.last_mem.1
      rw [lastCursor_behind hbehind]
      exact usingQueryLoop_chain hchain.last_mem Rs hlt hr htrail hvs hchain.isChain
        hchain.ascending.tail hlast []

/-- Where `last` is the first byte of a region, `query_range` has the rounds of the
    loop and nothing more. -/
theorem queryRange_rounds_sample :
    ∃ fuel, queryRangeUsingQuery (fun x => windowsQueryLocal 64 samplePageQuery x) fuel
        (0x1010 : BitVec 64) 0x2000
      = some (.ok [BasicRegion.mapped 0x1000 0x2000 ⟨4⟩ false]) := by
  obtain ⟨fuel, h⟩ := queryRange_rounds sampleLayout
    (fun x => windowsQueryLocal 64 samplePageQuery x) 0x1010 0x2000 (by decide) (sampleLayout_covers (by decide)) 2
    [BasicRegion.mapped 0x1000 0x2000 ⟨4⟩ false, BasicRegion.mapped 0x2000 0x4000 ⟨4⟩ false] rfl (by
      refine List.Forall₂.cons ?_ (List.Forall₂.cons ?_ List.Forall₂.nil)
      · exact ⟨List.mem_cons_self .., by decide, by decide, rfl⟩
      · exact ⟨List.mem_cons_of_mem _ (List.mem_cons_self ..), by decide, by decide, rfl⟩)
  exact ⟨fuel, h⟩

end Layout

/-! ## Linux -/

section Linux

variable {L : Listing} {first last : BitVec 64}

/-- The mappings that begin at an address where another one ends. -/
def Listing.adjoining (L : Listing) (a : BitVec 64) : List MapsLine :=
  L.lines.filter (fun l => l.beginAddr = a ∧ ∃ m ∈ L.lines, m.endAddr = a)

/-- The used cells are the mappings. -/
theorem filter_used_cellsFrom (prev : BitVec 64) (lines : List MapsLine) :
    (cellsFrom prev lines).filter (fun c => c.used) = lines.map MapsLine.region := by
  induction lines generalizing prev with
  | nil => rfl
  | cons l ls ih =>
      rw [cellsFrom, List.map_cons, ← ih l.endAddr]
      by_cases hgap : prev < l.beginAddr
      · rw [if_pos hgap]
        simp [BasicRegion.free, MapsLine.region, BasicRegion.mapped]
      · rw [if_neg hgap]
        simp [MapsLine.region, BasicRegion.mapped]

/-- What the scan of a listing answers with. -/
theorem Listing.scan_cases (L : Listing) (a : BitVec 64) :
    (∃ b e, scanRegion a 0 L.lines = BasicRegion.free b e
        ∧ ∀ l ∈ L.lines, ¬ (l.beginAddr ≤ a ∧ a ≤ l.endAddr))
      ∨ ∃ l ∈ L.lines, scanRegion a 0 L.lines = l.region ∧ Answering L a l :=
  scanRegion_cases L.ascending

/-- The cell a query stops at reaches the address: it contains it or is a mapping
    that ends there, and the only one that does. -/
theorem stop_cases {a : BitVec 64} {r : BasicRegion 64}
    (h : L.cells.find? (Reaches a) = some r) :
    (r.used = false ∧ a < r.endAddr)
      ∨ ∃ l ∈ L.lines, r = l.region ∧ Answering L a l := by
  have hreach : Reaches a r = true := List.find?_some h
  rw [Listing.cells, find?_cellsFrom (Nat.zero_le _)] at h
  split at h
  · obtain rfl := Option.some.inj h
    rcases L.scan_cases a with ⟨b, e, heq, -⟩ | ⟨l, hl, heq, hans⟩
    · rw [heq, reaches_free, decide_eq_true_eq] at hreach
      rw [heq]
      exact Or.inl ⟨rfl, hreach⟩
    · exact Or.inr ⟨l, hl, heq, hans⟩
  · cases h

/-- The cells of a listing, cut in front of the cell `r` that a query of `first`
    stops at and behind the cell `r'` that one of `last` stops at. -/
structure CellsCut (L : Listing) (first last : BitVec 64) (pre mid post : List (BasicRegion 64))
    (r r' : BasicRegion 64) : Prop where
  cells : L.cells = pre ++ (mid ++ r' :: post)
  head : (mid ++ [r']).head? = some r
  first_stops : L.cells.find? (Reaches first) = some r
  last_stops : L.cells.find? (Reaches last) = some r'
  pre_short : ∀ c ∈ pre, Reaches first c = false
  mid_short : ∀ c ∈ mid, Reaches last c = false

section

variable {pre mid post : List (BasicRegion 64)} {r r' c : BasicRegion 64}

/-- A used cell of the three parts is a mapping. -/
theorem CellsCut.line_of_used (h : CellsCut L first last pre mid post r r')
    (hc : c ∈ pre ∨ c ∈ mid ++ [r'] ∨ c ∈ post) (hused : c.used = true) :
    ∃ l ∈ L.lines, c = l.region := by
  have hmem : c ∈ L.cells := by
    rw [h.cells]
    simp only [List.mem_append, List.mem_cons, List.not_mem_nil, or_false] at hc ⊢
    rw [or_assoc] at hc
    exact hc
  exact cellsFrom_used hused hmem

theorem CellsCut.ascending (h : CellsCut L first last pre mid post r r') :
    Ascending cellLo cellHi (pre ++ (mid ++ r' :: post)) := h.cells ▸ L.cells_ascending

/-- The cells of the segment end at `first` or behind. -/
theorem CellsCut.first_le_end (h : CellsCut L first last pre mid post r r')
    (hc : c ∈ mid ++ [r']) : first ≤ c.endAddr := by
  have hr : first ≤ r.endAddr := by
    have hreach := List.find?_some h.first_stops
    rw [Reaches] at hreach
    split at hreach
    · exact of_decide_eq_true hreach
    · exact Nat.le_of_lt (of_decide_eq_true hreach)
  obtain ⟨tl, htl⟩ := List.head?_eq_some_iff.mp h.head
  have hsegment : (mid ++ [r']).Sublist (pre ++ (mid ++ r' :: post)) := by
    refine List.Sublist.trans ?_ (List.sublist_append_right ..)
    exact List.Sublist.append (List.Sublist.refl mid) (List.singleton_sublist.mpr (by simp))
  have hsorted := h.ascending.hi_lt.sublist hsegment
  rw [htl] at hsorted hc
  rcases List.mem_cons.mp hc with rfl | hc
  · exact hr
  · exact Nat.le_trans hr (Nat.le_of_lt ((List.pairwise_cons.mp hsorted).1 c hc))

/-- A mapping in front of the segment does not touch the range. -/
theorem CellsCut.pre_used (h : CellsCut L first last pre mid post r r') (hle : first ≤ last)
    (hc : c ∈ pre) (hused : c.used = true) : ¬ first ≤ c.endAddr ∧ ¬ c.beginAddr = last := by
  obtain ⟨l, hl, rfl⟩ := h.line_of_used (Or.inl hc) hused
  have hlt := L.begin_lt_end l hl
  have hnot := h.pre_short _ hc
  rw [reaches_region, decide_eq_false_iff_not] at hnot
  refine ⟨hnot, ?_⟩
  intro hbegin
  have hbegin' : l.beginAddr = last := hbegin
  bv_omega

/-- A mapping of the segment begins at `last` or in front, and adjoins no other
    one there. -/
theorem CellsCut.segment_used (h : CellsCut L first last pre mid post r r')
    (hc : c ∈ mid ++ [r']) (hused : c.used = true) : c.beginAddr ≤ last
      ∧ ¬ (c.beginAddr = last ∧ ∃ m ∈ L.lines, m.endAddr = last) := by
  obtain ⟨l, hl, rfl⟩ := h.line_of_used (Or.inr (Or.inl hc)) hused
  have hlt := L.begin_lt_end l hl
  rcases List.mem_append.mp hc with hc | hc
  · have hnot := h.mid_short _ hc
    rw [reaches_region, decide_eq_false_iff_not] at hnot
    show l.beginAddr ≤ last ∧ ¬ (l.beginAddr = last ∧ _)
    constructor
    · bv_omega
    · rintro ⟨rfl, -⟩
      bv_omega
  · obtain rfl := List.mem_singleton.mp hc
    rcases stop_cases h.last_stops with ⟨hfree, -⟩ | ⟨m, hm, heq, hans⟩
    · cases hfree
    · obtain rfl : l = m :=
        L.ascending.eq_of_lo_eq hl hm (congrArg (fun c => c.beginAddr.toNat) heq)
      refine ⟨hans.1, ?_⟩
      rintro ⟨hbegin, m, hm, hend⟩
      have hbegin' : l.beginAddr = last := hbegin
      obtain rfl := hans.2.2 m hm hend
      bv_omega

/-- A mapping behind the segment touches the range only where it begins at `last`
    behind another one. -/
theorem CellsCut.post_used (h : CellsCut L first last pre mid post r r') (hle : first ≤ last)
    (hc : c ∈ post) (hused : c.used = true) : (c.beginAddr ≤ last ∧ first ≤ c.endAddr)
      ↔ (c.beginAddr = last ∧ ∃ m ∈ L.lines, m.endAddr = last) := by
  obtain ⟨l, hl, rfl⟩ := h.line_of_used (Or.inr (Or.inr hc)) hused
  have hlt := L.begin_lt_end l hl
  have hbehind : r'.endAddr ≤ l.beginAddr := by
    have hback := (List.pairwise_append.mp (List.pairwise_append.mp h.ascending.sorted).2.1).2.1
    exact (List.pairwise_cons.mp hback).1 _ hc
  show l.beginAddr ≤ last ∧ first ≤ l.endAddr ↔ l.beginAddr = last ∧ _
  constructor
  · rintro ⟨hbegin, -⟩
    rcases stop_cases h.last_stops with ⟨-, hend⟩ | ⟨m, hm, rfl, hans⟩
    · bv_omega
    · have hend : last ≤ m.endAddr := hans.2.1
      have hbehind' : m.endAddr ≤ l.beginAddr := hbehind
      exact ⟨by bv_omega, m, hm, by bv_omega⟩
  · rintro ⟨hbegin, -⟩
    exact ⟨by bv_omega, by bv_omega⟩

/-- **The mappings of a segment of the cells** are the selected ones, up to a
    mapping that begins at `last` behind one that ends there. -/
theorem CellsCut.selected_eq (h : CellsCut L first last pre mid post r r') (hle : first ≤ last) :
    (selected first last L.lines).map MapsLine.region
      = (mid ++ [r']).filter (fun c => c.used) ++ (L.adjoining last).map MapsLine.region := by
  have hselected : (selected first last L.lines).map MapsLine.region
      = (L.cells.filter (fun c => c.used)).filter
          (fun c => decide (c.beginAddr ≤ last ∧ first ≤ c.endAddr)) := by
    rw [selected_eq_filter L.ascending, Listing.cells, filter_used_cellsFrom, List.filter_map]
    rfl
  have hadjoining : (L.adjoining last).map MapsLine.region
      = (L.cells.filter (fun c => c.used)).filter
          (fun c => decide (c.beginAddr = last ∧ ∃ m ∈ L.lines, m.endAddr = last)) := by
    rw [Listing.adjoining, Listing.cells, filter_used_cellsFrom, List.filter_map]
    rfl
  have hsplit : L.cells.filter (fun c => c.used) = pre.filter (fun c => c.used)
      ++ ((mid ++ [r']).filter (fun c => c.used) ++ post.filter (fun c => c.used)) := by
    rw [h.cells, ← List.filter_append, ← List.filter_append]
    simp
  rw [hselected, hadjoining, hsplit]
  refine filter_cut ?_ ?_ ?_
  · intro c hc
    obtain ⟨hc, hused⟩ := List.mem_filter.mp hc
    obtain ⟨hend, hbegin⟩ := h.pre_used hle hc hused
    exact ⟨decide_eq_false (fun h => hend h.2), decide_eq_false (fun h => hbegin h.1)⟩
  · intro c hc
    obtain ⟨hc, hused⟩ := List.mem_filter.mp hc
    obtain ⟨hbegin, hnot⟩ := h.segment_used hc hused
    exact ⟨decide_eq_true ⟨hbegin, h.first_le_end hc⟩, decide_eq_false hnot⟩
  · intro c hc
    obtain ⟨hc, hused⟩ := List.mem_filter.mp hc
    exact decide_eq_decide.mpr (h.post_used hle hc hused)

end

/-- **The mappings of a range on Linux**: `query_range` returns those of the loop
    over an iterator pair and of the iterator it stops at, then a mapping that
    begins at `last` where another one ends, and the last mapping of the file once
    more if it touches the range. -/
theorem linuxQueryRange_mappings (ps : PageSize) (L : Listing) (hal : L.PageAligned ps)
    (proc : Process) (u : BitVec 64 → Uninit) (u' : Uninit) (ec : ErrorCode)
    (hopen : proc.openFile (mapsPath proc.getpid) = some L.text) (first last : BitVec 64)
    (hle : first ≤ last) (fuel : Nat) (trace : List (BasicRegion 64))
    (hrun : iteratorLoop (fun x => queryLocal 64 proc (u x) x) fuel first last
      = some (.ok trace)) :
    ∃ regions, queryRangeLocalEc 64 proc u' first last ec = .ok (regions, ec)
      ∧ regions.filter (fun r => r.used)
        = trace.filter (fun r => r.used) ++ (L.adjoining last).map MapsLine.region
          ++ (repeatedLast first last L.lines).map MapsLine.region := by
  have hlocal : ∀ x c, queryLocal 64 proc (u x) x = .ok c ↔ L.cells.find? (Reaches x) = some c :=
    fun x c => queryLocal_eq_ok_iff hopen (u x) x c
  obtain ⟨r, r', its, hfirst, hlast, -, -⟩ := iteratorLoop_eq_ok hrun
  have hr := (hlocal first r).mp hfirst
  have hr' := (hlocal last r').mp hlast
  have hne : L.lines ≠ [] := by
    intro h
    rw [Listing.cells, h] at hr
    cases hr
  obtain ⟨pre, mid, post, hcells, hhead, hpre, hmid⟩ := split_of_find? hle hr hr'
  have hseg : mid ++ [r'] <:+: L.cells := ⟨pre, post, by rw [hcells]; simp⟩
  have hrounds := hal.iteratorLoop_segment (fun x c h => (hlocal x c).mpr h) hfirst hlast hhead hseg
  obtain rfl : trace = mid ++ [r'] := Except.ok.inj (iteratorLoop_unique hrun hrounds)
  refine ⟨_, queryRangeEc_listing hopen hne .., ?_⟩
  have hused : ∀ r ∈ (collected first last L.lines).map MapsLine.region, r.used = true := by
    intro r hr
    obtain ⟨l, -, rfl⟩ := List.mem_map.mp hr
    rfl
  have hcut : CellsCut L first last pre mid post r r' := ⟨hcells, hhead, hr, hr', hpre, hmid⟩
  rw [filter_used_withGaps hused, collected, List.map_append, hcut.selected_eq hle]

theorem linuxQueryRange_mappings_sample :
    ∃ regions, queryRangeLocalEc 64 sampleProcess sampleUninit (0x1800 : BitVec 64) 0x2000 {}
        = .ok (regions, {})
      ∧ regions.filter (fun r => r.used)
        = [(MapsLine.anonymous 0x1000 0x2000 true false false false).region,
          (MapsLine.anonymous 0x2000 0x4000 true true false false).region] :=
  linuxQueryRange_mappings ⟨12, by decide, by decide⟩ sampleListing sampleListing_pageAligned
    sampleProcess (fun _ => sampleUninit) sampleUninit {} rfl 0x1800 0x2000 (by decide) 1
    [(MapsLine.anonymous 0x1000 0x2000 true false false false).region]
    (sampleListing_pageAligned.iteratorLoop_segment
      (fun x c h => (queryLocal_eq_ok_iff rfl sampleUninit x c).mpr h)
      ((queryLocal_eq_ok_iff (L := sampleListing) rfl sampleUninit 0x1800 _).mpr (by decide))
      ((queryLocal_eq_ok_iff (L := sampleListing) rfl sampleUninit 0x2000 _).mpr (by decide))
      (show ([] ++ [_]).head? = some _ from rfl) ⟨[.free 0 0x1000], _, rfl⟩)

end Linux

end VmUtils
