import VmUtils.AddressCells
import VmUtils.Lib.Walk

/-! # `query_iterator`

    `query_iterator.hpp`.  The iterator holds a region, moves by querying its
    `end()`, and is equal to another if its region contains the other's.  Over a
    page-aligned listing `end()` lies one byte inside the next cell, so the loop
    between two addresses visits every cell from the one to the other, once and
    in order (`iteratorLoop_visits`). -/

namespace VmUtils

open Intervals Walk

variable {w v a : Nat}

/-- `basic_query_iterator`. -/
structure QueryIterator (w : Nat) where
  region : BasicRegion w

/-- `basic_query_iterator(address)`. -/
def QueryIterator.ofAddress (query : BitVec a → Except Exn (BasicRegion w)) (address : BitVec a) :
    Except Exn (QueryIterator w) :=
  (query address).map QueryIterator.mk

/-- `operator++`. -/
def QueryIterator.next (query : BitVec w → Except Exn (BasicRegion w)) (it : QueryIterator w) :
    Except Exn (QueryIterator w) :=
  (query it.region.end).map QueryIterator.mk

/-- `operator==`, on addresses cast to `std::uintptr_t`. -/
def QueryIterator.eq (it : QueryIterator w) (other : QueryIterator v) : Bool :=
  decide (addressCastUnchecked 64 it.region.begin
      ≤ addressCastUnchecked 64 other.region.begin)
    && decide (addressCastUnchecked 64 other.region.end ≤ addressCastUnchecked 64 it.region.end)

/-- `for (query_iterator it(first), e(last); it != e; ++it)`: the region `*it` of
    every round and the one at which the loop stops. -/
def iteratorLoop (query : BitVec w → Except Exn (BasicRegion w)) (fuel : Nat)
    (first last : BitVec w) : Option (Except Exn (List (BasicRegion w))) :=
  match QueryIterator.ofAddress query first, QueryIterator.ofAddress query last with
  | .ok it, .ok e =>
      (walk (QueryIterator.next query) (fun it => it.eq e) fuel it).map
        (fun r => r.map (List.map QueryIterator.region))
  | .error e, _ => some (.error e)
  | .ok _, .error e => some (.error e)

theorem eq_iff (it other : QueryIterator 64) :
    it.eq other = true
      ↔ it.region.begin ≤ other.region.begin ∧ other.region.end ≤ it.region.end := by
  rw [QueryIterator.eq, Bool.and_eq_true, decide_eq_true_eq, decide_eq_true_eq,
    addressCastUnchecked_self, addressCastUnchecked_self, addressCastUnchecked_self,
    addressCastUnchecked_self]

/-! ## The cells of a page-aligned listing -/

variable {L : Listing} {ps : PageSize}

/-- Two page boundaries are at least two bytes apart. -/
theorem PageSize.add_two_le (ps : PageSize) {x y : BitVec 64} (hx : ps.bytes ∣ x.toNat)
    (hy : ps.bytes ∣ y.toNat) (hlt : x < y) : x.toNat + 2 ≤ y.toNat := by
  have hlt' : x.toNat < y.toNat := hlt
  have := Nat.le_of_dvd (by omega) (Nat.dvd_sub hy hx)
  have := ps.one_lt
  omega

theorem Listing.cells_ascending (L : Listing) : Ascending cellLo cellHi L.cells :=
  cellsFrom_ascending L.ascending (fun _ _ => Nat.zero_le _)

theorem Listing.cells_isChain (L : Listing) :
    L.cells.IsChain (fun c c' => c.endAddr = c'.beginAddr) :=
  cellsFrom_isChain L.ascending (fun _ _ => Nat.zero_le _)

/-- The bounds of the cells are page boundaries. -/
theorem Listing.PageAligned.cells (hal : L.PageAligned ps) :
    ∀ c ∈ L.cells, ps.bytes ∣ c.beginAddr.toNat ∧ ps.bytes ∣ c.endAddr.toNat := by
  intro c hc
  have hzero : ps.bytes ∣ (0 : BitVec 64).toNat := Nat.dvd_zero _
  exact cellsFrom_bounds (P := fun x => ps.bytes ∣ x.toNat) hzero
    (fun l hl => ⟨hal.begin_dvd l hl, hal.end_dvd l hl⟩) c hc

/-- `end()` of a cell does not wrap. -/
theorem Listing.PageAligned.cell_end (hal : L.PageAligned ps) {c : BasicRegion 64}
    (hc : c ∈ L.cells) : c.end.toNat = c.endAddr.toNat + 1 := by
  have htop := ps.succ_lt (hal.cells c hc).2
  rw [BasicRegion.end]
  bv_omega

/-- **The next cell is found** by a query for `end()` of the one in front of it. -/
theorem Listing.PageAligned.find?_next (hal : L.PageAligned ps) {c c' : BasicRegion 64}
    (hpair : [c, c'] <:+: L.cells) : L.cells.find? (Reaches c.end) = some c' := by
  have hadj : c.endAddr = c'.beginAddr := isChain_iff_forall_pair.mp L.cells_isChain c c' hpair
  have hc : c ∈ L.cells := hpair.subset (List.mem_cons_self ..)
  have hc' : c' ∈ L.cells := hpair.subset (List.mem_cons_of_mem _ (List.mem_cons_self ..))
  have hend := hal.cell_end hc
  -- the byte behind `c` lies in `c'`, and short of its end
  have hroom : c.endAddr.toNat + 2 ≤ c'.endAddr.toNat := by
    rw [hadj]
    exact ps.add_two_le (hal.cells c' hc').1 (hal.cells c' hc').2
      (L.cells_ascending.nonempty c' hc')
  have hreach : Reaches c.end c' = true := by
    rw [Reaches]
    by_cases hu : c'.used = true
    · rw [if_pos hu, decide_eq_true_eq]
      show c.end.toNat ≤ c'.endAddr.toNat
      omega
    · rw [if_neg hu, decide_eq_true_eq]
      show c.end.toNat < c'.endAddr.toNat
      omega
  have hpass : ∀ d : BasicRegion 64, d.endAddr.toNat ≤ c.endAddr.toNat →
      Reaches c.end d = false := by
    intro d hd
    rw [Reaches]
    by_cases hu : d.used = true
    · rw [if_pos hu, decide_eq_false_iff_not]
      show ¬ c.end.toNat ≤ d.endAddr.toNat
      omega
    · rw [if_neg hu, decide_eq_false_iff_not]
      show ¬ c.end.toNat < d.endAddr.toNat
      omega
  obtain ⟨pre, post, hsplit⟩ := hpair
  refine List.find?_eq_some_iff_append.mpr ⟨hreach, pre ++ [c], post, ?_, ?_⟩
  · rw [← hsplit]
    simp
  · intro d hd
    rw [hpass d, Bool.not_false]
    rcases List.mem_append.mp hd with hd | hd
    · have hasc := L.cells_ascending.hi_lt
      rw [← hsplit, List.append_assoc] at hasc
      have hlt := (List.pairwise_append.mp hasc).2.2 d hd c (List.mem_cons_self ..)
      exact Nat.le_of_lt hlt
    · rw [List.mem_singleton.mp hd]

/-! ## The loop -/

/-- The first cells that two addresses in order reach cut the cells in three. -/
theorem split_of_find? {C : List (BasicRegion 64)} {first last : BitVec 64}
    {r r' : BasicRegion 64} (hle : first ≤ last) (hfirst : C.find? (Reaches first) = some r)
    (hlast : C.find? (Reaches last) = some r') :
    ∃ pre mid post, C = pre ++ (mid ++ r' :: post) ∧ (mid ++ [r']).head? = some r
      ∧ (∀ c ∈ pre, Reaches first c = false) ∧ (∀ c ∈ mid, Reaches last c = false) := by
  obtain ⟨-, pre, post, rfl, hpre⟩ := List.find?_eq_some_iff_append.mp hfirst
  -- what does not reach the first address does not reach the last one
  have hnone : pre.find? (Reaches last) = none := by
    rw [List.find?_eq_none]
    intro c hc hreach
    have hnot := hpre c hc
    rw [Reaches.mono hle hreach] at hnot
    exact Bool.false_ne_true hnot
  rw [List.find?_append, hnone, Option.none_or] at hlast
  obtain ⟨-, mid, post', hsplit, hmid⟩ := List.find?_eq_some_iff_append.mp hlast
  refine ⟨pre, mid, post', by rw [hsplit], ?_, ?_, ?_⟩
  · have hhead : (mid ++ r' :: post').head? = some r := by
      rw [← hsplit]
      rfl
    cases mid with
    | nil => exact hhead
    | cons c mid => exact hhead
  · intro c hc
    exact Bool.not_eq_true' _ ▸ hpre c hc
  · intro c hc
    exact Bool.not_eq_true' _ ▸ hmid c hc

/-- The first cells that two addresses in order reach, as the ends of a segment
    of the cells. -/
theorem segment_of_find? {C : List (BasicRegion 64)} {first last : BitVec 64}
    {r r' : BasicRegion 64} (hle : first ≤ last) (hfirst : C.find? (Reaches first) = some r)
    (hlast : C.find? (Reaches last) = some r') :
    ∃ mid, (mid ++ [r']).head? = some r ∧ mid ++ [r'] <:+: C := by
  obtain ⟨pre, mid, post, rfl, hhead, -⟩ := split_of_find? hle hfirst hlast
  refine ⟨mid, hhead, pre, post, ?_⟩
  simp

/-- A cell in front of another is not equal to it as an iterator. -/
theorem Listing.PageAligned.not_eq (hal : L.PageAligned ps) {c r' : BasicRegion 64}
    (hc : c ∈ L.cells) (hr' : r' ∈ L.cells) (hlt : cellHi c < cellHi r') :
    QueryIterator.eq ⟨c⟩ (⟨r'⟩ : QueryIterator 64) = false := by
  rw [Bool.eq_false_iff, ne_eq, eq_iff]
  rintro ⟨-, hend⟩
  have hend' : r'.end.toNat ≤ c.end.toNat := hend
  rw [hal.cell_end hc, hal.cell_end hr'] at hend'
  exact absurd hlt (Nat.not_lt.mpr (Nat.le_of_succ_le_succ hend'))

/-- **The loop over a segment of the cells.** -/
theorem Listing.PageAligned.walk_cells (hal : L.PageAligned ps)
    {query : BitVec 64 → Except Exn (BasicRegion 64)}
    (hquery : ∀ x c, L.cells.find? (Reaches x) = some c → query x = .ok c)
    {mid : List (BasicRegion 64)} {r r' : BasicRegion 64}
    (hhead : (mid ++ [r']).head? = some r) (hseg : mid ++ [r'] <:+: L.cells) :
    walk (QueryIterator.next query) (fun it => it.eq (⟨r'⟩ : QueryIterator 64)) (mid.length + 1) ⟨r⟩
      = some (.ok ((mid ++ [r']).map QueryIterator.mk)) := by
  have hsorted := L.cells_ascending.hi_lt.sublist hseg.sublist
  have hmap : (mid ++ [r']).map QueryIterator.mk
      = mid.map QueryIterator.mk ++ [(⟨r'⟩ : QueryIterator 64)] := List.map_append ..
  have hlen : (mid.map QueryIterator.mk).length = mid.length := List.length_map ..
  have hself : QueryIterator.eq ⟨r'⟩ (⟨r'⟩ : QueryIterator 64) = true :=
    (eq_iff ⟨r'⟩ ⟨r'⟩).mpr ⟨Nat.le_refl _, Nat.le_refl _⟩
  rw [hmap, ← hlen]
  refine @walk_segment _ _ _ (fun it => it.eq (⟨r'⟩ : QueryIterator 64)) _ hself
    (mid.map QueryIterator.mk) ⟨r⟩ ?_ ?_ ?_
  · rw [← hmap, List.head?_map, hhead]
    rfl
  · -- everything in front of the last cell ends before it
    intro p hp
    obtain ⟨c, hc, rfl⟩ := List.mem_map.mp hp
    have hlt := (List.pairwise_append.mp hsorted).2.2 c hc r' (List.mem_singleton_self r')
    exact hal.not_eq (hseg.subset (List.mem_append_left _ hc))
      (hseg.subset (List.mem_append_right _ (List.mem_singleton_self r'))) hlt
  · intro p p' hpair
    rw [← hmap] at hpair
    obtain ⟨c, c', hcells, rfl, rfl⟩ := pair_infix_map hpair
    rw [QueryIterator.next, hquery _ c' (hal.find?_next (hcells.trans hseg))]
    rfl

/-- The loop between the addresses at the ends of a segment. -/
theorem Listing.PageAligned.iteratorLoop_segment (hal : L.PageAligned ps)
    {query : BitVec 64 → Except Exn (BasicRegion 64)}
    (hquery : ∀ x c, L.cells.find? (Reaches x) = some c → query x = .ok c)
    {first last : BitVec 64} {mid : List (BasicRegion 64)} {r r' : BasicRegion 64}
    (hfirst : query first = .ok r) (hlast : query last = .ok r')
    (hhead : (mid ++ [r']).head? = some r) (hseg : mid ++ [r'] <:+: L.cells) :
    iteratorLoop query (mid.length + 1) first last = some (.ok (mid ++ [r'])) := by
  rw [iteratorLoop, QueryIterator.ofAddress, QueryIterator.ofAddress, hfirst, hlast]
  show (walk _ _ _ _).map _ = _
  rw [hal.walk_cells hquery hhead hseg]
  simp [Except.map, Function.comp_def]

/-- **The loop from `first` to `last`** ends, begins with the region of `first`,
    stops at the region of `last` and there only, and visits a segment of the
    cells: each region begins where the one in front ends, and none comes twice. -/
theorem iteratorLoop_visits (ps : PageSize) (L : Listing) (hal : L.PageAligned ps)
    (proc : Process) (u : BitVec 64 → Uninit)
    (hopen : proc.openFile (mapsPath proc.getpid) = some L.text) (first last : BitVec 64)
    (hle : first ≤ last) (r r' : BasicRegion 64)
    (hfirst : queryLocal 64 proc (u first) first = .ok r)
    (hlast : queryLocal 64 proc (u last) last = .ok r') :
    ∃ fuel trace,
      iteratorLoop (fun x => queryLocal 64 proc (u x) x) fuel first last = some (.ok trace)
        ∧ trace.head? = some r
        ∧ trace.getLast? = some r'
        ∧ r' ∉ trace.dropLast
        ∧ trace <:+: L.cells
        ∧ trace.IsChain (fun c c' => c'.begin = c.begin + c.size)
        ∧ trace.Nodup := by
  have hlocal : ∀ x c, queryLocal 64 proc (u x) x = .ok c ↔ L.cells.find? (Reaches x) = some c :=
    fun x c => queryLocal_eq_ok_iff hopen (u x) x c
  obtain ⟨mid, hhead, hseg⟩ :=
    segment_of_find? hle ((hlocal first r).mp hfirst) ((hlocal last r').mp hlast)
  have hrun := hal.iteratorLoop_segment (fun x c h => (hlocal x c).mpr h) hfirst hlast hhead hseg
  have hnodup : (mid ++ [r']).Nodup := by
    refine (L.cells_ascending.hi_lt.sublist hseg.sublist).imp ?_
    rintro c c' hlt rfl
    exact absurd hlt (Nat.lt_irrefl _)
  refine ⟨mid.length + 1, mid ++ [r'], hrun, hhead, List.getLast?_concat .., ?_, hseg, ?_, hnodup⟩
  · rw [List.dropLast_concat]
    intro hmem
    exact (List.nodup_append.mp hnodup).2.2 r' hmem r' (List.mem_singleton_self r') rfl
  · have hchain := List.IsChain.infix L.cells_isChain hseg
    refine hchain.imp ?_
    intro c c' hadj
    rw [begin_add_size]
    exact hadj.symm

theorem iteratorLoop_visits_sample :
    ∃ fuel trace,
      iteratorLoop (fun x => queryLocal 64 sampleProcess sampleUninit x) fuel (0x1800 : BitVec 64)
          0x8800 = some (.ok trace)
        ∧ trace.head? = some (MapsLine.anonymous 0x1000 0x2000 true false false false).region
        ∧ trace.getLast? = some (MapsLine.anonymous 0x8000 0x9000 true false true false).region
        ∧ (MapsLine.anonymous 0x8000 0x9000 true false true false).region ∉ trace.dropLast
        ∧ trace <:+: sampleListing.cells
        ∧ trace.IsChain (fun c c' => c'.begin = c.begin + c.size)
        ∧ trace.Nodup :=
  iteratorLoop_visits ⟨12, by decide, by decide⟩ sampleListing ⟨by decide, by decide⟩
    sampleProcess (fun _ => sampleUninit) rfl 0x1800 0x8800 (by decide) _ _
    ((queryLocal_eq_ok_iff rfl sampleUninit 0x1800 _).mpr (by decide))
    ((queryLocal_eq_ok_iff rfl sampleUninit 0x8800 _).mpr (by decide))

/-- The sample has one gap between its mappings and one in front of them. -/
example : sampleListing.cells.map (fun c => (c.begin, c.size, c.used))
    = [(0, 0x1000, false), (0x1000, 0x1000, true), (0x2000, 0x2000, true),
      (0x4000, 0x4000, false), (0x8000, 0x1000, true)] := by decide

end VmUtils
