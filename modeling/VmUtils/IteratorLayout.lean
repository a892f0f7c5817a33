import VmUtils.QueryIterator
import VmUtils.QueryRangeTermination

/-! # `query_iterator` on Windows and macOS

    The loop between two iterators over a layout without holes.  It visits the
    regions from the one of the first address to the one of the last, each once and
    in order, but the last of them ends it only if the iterator there does not begin
    behind the one it is compared with (`iteratorLoop_layout_iff`).  A region that
    `VirtualQueryEx` answers with begins on a page boundary, so on Windows that is
    always the case (`windowsIterator_visits`); free memory on macOS begins at the
    address that was asked for, and the loop misses an end on its first byte
    (`osxIterator_visits_iff`). -/

namespace VmUtils

open Intervals Walk

variable {O : OsLayout 64} {first last : BitVec 64}
  {query : BitVec 64 → Except Exn (BasicRegion 64)}

/-! ## The regions of the loop -/

/-- The regions from the one of `first` to the one of `last`. -/
def OsLayout.between (O : OsLayout 64) (first last : BitVec 64) : List (OsRegion 64) :=
  O.regions.filter (fun R => decide (first < R.limit ∧ R.base ≤ last))

/-- There is no hole in the layout from `first` to `last`. -/
def OsLayout.Covers (O : OsLayout 64) (first last : BitVec 64) : Prop :=
  ∀ x, first ≤ x → x ≤ last → ∃ R ∈ O.regions, R.Contains x

theorem mem_between {R : OsRegion 64} :
    R ∈ O.between first last ↔ R ∈ O.regions ∧ first < R.limit ∧ R.base ≤ last := by
  simp [OsLayout.between]

theorem OsLayout.between_ascending (O : OsLayout 64) (first last : BitVec 64) :
    Ascending OsRegion.lo OsRegion.hi (O.between first last) :=
  O.ascending.sublist List.filter_sublist

/-- A covered byte lies in a region of the loop. -/
theorem OsLayout.Covers.exists_between (h : O.Covers first last) {x : BitVec 64}
    (h1 : first ≤ x) (h2 : x ≤ last) : ∃ R ∈ O.between first last, R.Contains x := by
  obtain ⟨R, hR, hlo, hhi⟩ := h x h1 h2
  refine ⟨R, mem_between.mpr ⟨hR, ?_, ?_⟩, hlo, hhi⟩
  · exact Nat.lt_of_le_of_lt h1 hhi
  · exact Nat.le_trans hlo h2

/-- The first of them contains `first`. -/
theorem OsLayout.Covers.head_contains (h : O.Covers first last) (hle : first ≤ last)
    {R : OsRegion 64} {Rs : List (OsRegion 64)} (hb : O.between first last = R :: Rs) :
    R.Contains first := by
  obtain ⟨S, hS, hc⟩ := h.exists_between (Nat.le_refl _) hle
  have hR : first < R.limit := (mem_between.mp (hb ▸ List.mem_cons_self ..)).2.1
  have hasc := O.between_ascending first last
  rw [hb] at hS hasc
  rcases List.mem_cons.mp hS with rfl | hS
  · exact hc
  · have hbefore : R.limit.toNat ≤ S.base.toNat := (List.pairwise_cons.mp hasc.sorted).1 S hS
    have h1 : first.toNat < R.limit.toNat := hR
    have h2 : S.base.toNat ≤ first.toNat := hc.1
    omega

/-- The last of them contains `last`. -/
theorem OsLayout.Covers.last_contains (h : O.Covers first last) (hle : first ≤ last)
    {Z : OsRegion 64} (hb : (O.between first last).getLast? = some Z) : Z.Contains last := by
  obtain ⟨S, hS, hc⟩ := h.exists_between hle (Nat.le_refl _)
  obtain ⟨Rs, hsplit⟩ := List.getLast?_eq_some_iff.mp hb
  have hmem : Z ∈ O.between first last := by
    rw [hsplit]
    exact List.mem_concat_self
  have hZ : Z.base ≤ last := (mem_between.mp hmem).2.2
  have hasc := O.between_ascending first last
  rw [hsplit] at hS hasc
  rcases List.mem_append.mp hS with hS | hS
  · have hbefore : S.limit.toNat ≤ Z.base.toNat :=
      (List.pairwise_append.mp hasc.sorted).2.2 S hS Z (List.mem_singleton_self Z)
    have h1 : Z.base.toNat ≤ last.toNat := hZ
    have h2 : last.toNat < S.limit.toNat := hc.2
    omega
  · rw [← List.mem_singleton.mp hS]
    exact hc

/-- Without holes each of them begins where the one in front ends. -/
theorem OsLayout.Covers.isChain (h : O.Covers first last) :
    (O.between first last).IsChain (fun R R' => R.limit = R'.base) := by
  refine isChain_iff_forall_pair.mpr ?_
  intro R R' hpair
  have hasc := O.between_ascending first last
  have hmem := mem_between.mp (hpair.subset (List.mem_cons_self ..))
  have hmem' := mem_between.mp (hpair.subset (List.mem_cons_of_mem _ (List.mem_cons_self ..)))
  have hle : R.limit.toNat ≤ R'.base.toNat := by
    have hsorted := hasc.sorted.sublist hpair.sublist
    exact (List.pairwise_cons.mp hsorted).1 R' (List.mem_singleton_self R')
  have h1 : first.toNat < R.limit.toNat := hmem.2.1
  have h2 : R'.base.toNat ≤ last.toNat := hmem'.2.2
  -- a region between the two would have to begin at the end of the first
  obtain ⟨S, hS, hlo, hhi⟩ := h.exists_between (x := R.limit) (Nat.le_of_lt h1)
    (Nat.le_trans hle h2)
  have hlo' : S.base.toNat ≤ R.limit.toNat := hlo
  have hhi' : R.limit.toNat < S.limit.toNat := hhi
  have hmono : (O.between first last).Pairwise (fun T T' => OsRegion.lo T ≤ OsRegion.lo T') :=
    hasc.lo_lt.imp Nat.le_of_lt
  rcases le_or_le_of_neighbours hpair hmono S hS with hfront | hback
  · have hfront' : S.base.toNat ≤ R.base.toNat := hfront
    have hR : R.base.toNat < R.limit.toNat := O.base_lt_limit R hmem.1
    obtain rfl : S = R := by
      refine O.ascending.eq_of_contains (mem_between.mp hS).1 hmem.1 (a := R.base.toNat)
        ⟨hfront', ?_⟩ ⟨Nat.le_refl _, hR⟩
      exact Nat.lt_trans hR hhi'
    exact absurd hhi' (Nat.lt_irrefl _)
  · have hback' : R'.base.toNat ≤ S.base.toNat := hback
    exact BitVec.eq_of_toNat_eq (by omega)

/-- The regions from `first` to `last` are a chain, from `R` that contains `first`
    to `Z` that contains `last`. -/
structure OsLayout.Chain (O : OsLayout 64) (first last : BitVec 64) (R : OsRegion 64)
    (Rs : List (OsRegion 64)) (Z : OsRegion 64) : Prop where
  between_eq : O.between first last = R :: Rs
  getLast : (R :: Rs).getLast? = some Z
  mem : ∀ S ∈ R :: Rs, S ∈ O.regions
  first_mem : R.Contains first
  last_mem : Z.Contains last
  ascending : Ascending OsRegion.lo OsRegion.hi (R :: Rs)
  isChain : (R :: Rs).IsChain (fun S S' => S.limit = S'.base)

theorem OsLayout.Covers.exists_chain (h : O.Covers first last) (hle : first ≤ last) :
    ∃ R Rs Z, O.Chain first last R Rs Z := by
  obtain ⟨R, Rs, hb⟩ : ∃ R Rs, O.between first last = R :: Rs := by
    obtain ⟨S, hS, -⟩ := h.exists_between (Nat.le_refl _) hle
    exact List.exists_cons_of_ne_nil (List.ne_nil_of_mem hS)
  obtain ⟨Z, hZ⟩ : ∃ Z, (R :: Rs).getLast? = some Z :=
    ⟨_, List.getLast?_eq_some_getLast (List.cons_ne_nil R Rs)⟩
  exact ⟨R, Rs, Z, {
    between_eq := hb
    getLast := hZ
    mem := fun S hS => (mem_between.mp (hb ▸ hS)).1
    first_mem := h.head_contains hle hb
    last_mem := h.last_contains hle (hb ▸ hZ)
    ascending := hb ▸ O.between_ascending first last
    isChain := hb ▸ h.isChain }⟩

theorem OsLayout.Chain.last_region {R Z : OsRegion 64} {Rs : List (OsRegion 64)}
    (h : O.Chain first last R Rs Z) : Z ∈ O.regions :=
  h.mem Z (List.mem_of_getLast? h.getLast)

/-- In a chain of two or more `last` lies behind the region of `first`. -/
theorem OsLayout.Chain.behind {R R' Z : OsRegion 64} {Rs : List (OsRegion 64)}
    (h : O.Chain first last R (R' :: Rs) Z) :
    (R' :: Rs).getLast? = some Z ∧ first.toNat < Z.base.toNat := by
  have hZ : (R' :: Rs).getLast? = some Z := by
    rw [← List.getLast?_cons_cons]
    exact h.getLast
  have hbehind : R.limit.toNat ≤ Z.base.toNat :=
    (List.pairwise_cons.mp h.ascending.sorted).1 Z (List.mem_of_getLast? hZ)
  exact ⟨hZ, Nat.lt_of_lt_of_le h.first_mem.2 hbehind⟩

/-! ## The loop -/

/-- The loop to `e` from the iterator with the region `r` ends, having visited the
    regions `Rs`. -/
def LoopVisits (O : OsLayout 64) (query : BitVec 64 → Except Exn (BasicRegion 64))
    (e r : BasicRegion 64) (Rs : List (OsRegion 64)) : Prop :=
  ∃ fuel visited, walk (QueryIterator.next query) (fun it => it.eq ⟨e⟩) fuel ⟨r⟩
      = some (.ok visited)
    ∧ List.Forall₂ O.Reported (visited.map QueryIterator.region) Rs

/-- `end()` of a reported region does not wrap. -/
theorem OsLayout.Reported.end_toNat {r : BasicRegion 64} {R : OsRegion 64}
    (h : O.Reported r R) : r.end.toNat = R.limit.toNat + 1 := by
  have htop := O.below_top R h.mem
  rw [BasicRegion.end, h.end_eq]
  bv_omega

/-- The loop visits at least the region it begins with. -/
theorem LoopVisits.ne_nil {e r : BasicRegion 64} {Rs : List (OsRegion 64)}
    (h : LoopVisits O query e r Rs) : Rs ≠ [] := by
  rintro rfl
  obtain ⟨fuel, visited, hrun, hall⟩ := h
  obtain rfl := List.map_eq_nil_iff.mp (List.forall₂_nil_right_iff.mp hall)
  cases fuel with
  | zero => cases hrun
  | succ fuel =>
      rw [walk] at hrun
      split at hrun
      · cases hrun
      · split at hrun
        · cases hrun
        · obtain ⟨s, -, hs⟩ := Option.map_eq_some_iff.mp hrun
          cases s <;> cases hs

/-- A round that goes on takes one region off. -/
theorem loopVisits_cons {e r r' : BasicRegion 64} {R : OsRegion 64} {Rs : List (OsRegion 64)}
    (hr : O.Reported r R) (hne : QueryIterator.eq ⟨r⟩ ⟨e⟩ = false) (hnext : query r.end = .ok r') :
    LoopVisits O query e r (R :: Rs) ↔ LoopVisits O query e r' Rs := by
  have hstep : QueryIterator.next query ⟨r⟩ = .ok ⟨r'⟩ := by
    rw [QueryIterator.next, hnext]
    rfl
  constructor
  · rintro ⟨fuel, visited, hrun, hall⟩
    cases fuel with
    | zero => cases hrun
    | succ fuel =>
        rw [walk, if_neg (Bool.eq_false_iff.mp hne), hstep] at hrun
        obtain ⟨s, hs, hmap⟩ := Option.map_eq_some_iff.mp hrun
        cases s with
        | error ex => cases hmap
        | ok rest =>
            obtain rfl := Except.ok.inj hmap
            rw [List.map_cons, List.forall₂_cons] at hall
            exact ⟨fuel, rest, hs, hall.2⟩
  · rintro ⟨fuel, visited, hrun, hall⟩
    refine ⟨fuel + 1, ⟨r⟩ :: visited, ?_, List.Forall₂.cons hr hall⟩
    rw [walk, if_neg (Bool.eq_false_iff.mp hne), hstep]
    dsimp only
    rw [hrun]
    rfl

/-- In the region of `last` the loop ends if the iterator does not begin behind
    the one of `last`; otherwise it leaves that region. -/
theorem loopVisits_last {e r : BasicRegion 64} {Z : OsRegion 64} (he : O.Reported e Z)
    (hr : O.Reported r Z) : LoopVisits O query e r [Z] ↔ r.beginAddr ≤ e.beginAddr := by
  have hend : e.end = r.end := by
    rw [BasicRegion.end, BasicRegion.end, he.end_eq, hr.end_eq]
  have heq : QueryIterator.eq ⟨r⟩ ⟨e⟩ = true ↔ r.beginAddr ≤ e.beginAddr := by
    rw [eq_iff, hend]
    exact and_iff_left (Nat.le_refl _)
  by_cases hle : r.beginAddr ≤ e.beginAddr
  · refine iff_of_true ⟨1, [⟨r⟩], ?_, List.Forall₂.cons hr .nil⟩ hle
    rw [walk, if_pos (heq.mpr hle)]
  · refine iff_of_false ?_ hle
    intro h
    have hne : QueryIterator.eq ⟨r⟩ ⟨e⟩ = false := Bool.eq_false_iff.mpr (fun h => hle (heq.mp h))
    cases hnext : query r.end with
    | error ex =>
        obtain ⟨fuel, visited, hrun, -⟩ := h
        cases fuel with
        | zero => cases hrun
        | succ fuel =>
            rw [walk, if_neg (Bool.eq_false_iff.mp hne), QueryIterator.next, hnext] at hrun
            cases hrun
    | ok r' => exact ((loopVisits_cons hr hne hnext).mp h).ne_nil rfl

/-- Behind the end of a region the next query is one byte into its neighbour. -/
theorem OsLayout.second_byte (O : OsLayout 64) {R : OsRegion 64} (hR : R ∈ O.regions) :
    R.Contains (R.base + 1) ∧ (R.base + 1).toNat = R.base.toNat + 1 := by
  have hroom := O.two_bytes hR
  have htop := O.below_top R hR
  have hnext : (R.base + 1).toNat = R.base.toNat + 1 := by bv_omega
  refine ⟨⟨?_, ?_⟩, hnext⟩
  · show R.base.toNat ≤ (R.base + 1).toNat
    omega
  · show (R.base + 1).toNat < R.limit.toNat
    omega

/-- An answer at an address of a region is a part of that region. -/
theorem OsLayout.Answers.reported {x : BitVec 64} {R : OsRegion 64} (h : O.Answers query x)
    (hR : R ∈ O.regions) (hc : R.Contains x) : ∃ r, query x = .ok r ∧ O.Reported r R := by
  obtain ⟨S, hS, hcS, r, hquery, hb, hle, hlim⟩ := h
  obtain rfl : S = R := O.ascending.eq_of_contains hS hR hcS hc
  exact ⟨r, hquery, hS, hb, Nat.lt_of_le_of_lt hle hcS.2, hlim⟩

/-- In front of the region of `last` the loop goes on, into the neighbour. -/
theorem loopVisits_step (hq : ∀ R ∈ O.regions, ∀ x, R.Contains x → O.Answers query x)
    {e r : BasicRegion 64} {R R' Z : OsRegion 64} {Rs : List (OsRegion 64)}
    (he : O.Reported e Z) (hr : O.Reported r R) (hR' : R' ∈ O.regions)
    (hadj : R.limit = R'.base) (hZ : R.limit ≤ Z.base) :
    ∃ r', query (R'.base + 1) = .ok r' ∧ O.Reported r' R'
      ∧ (LoopVisits O query e r (R :: Rs) ↔ LoopVisits O query e r' Rs) := by
  have hend : r.end = R'.base + 1 := by
    rw [BasicRegion.end, hr.end_eq, hadj]
  have hc := (O.second_byte hR').1
  obtain ⟨r', hquery, hr'⟩ := (hq R' hR' _ hc).reported hR' hc
  refine ⟨r', hquery, hr', ?_⟩
  refine loopVisits_cons hr ?_ (hend ▸ hquery)
  refine Bool.eq_false_iff.mpr ?_
  intro heq
  have hle' : e.end.toNat ≤ r.end.toNat := ((eq_iff _ _).mp heq).2
  have hZlt : Z.base.toNat < Z.limit.toNat := O.base_lt_limit Z he.mem
  have hZ' : R.limit.toNat ≤ Z.base.toNat := hZ
  rw [he.end_toNat, hr.end_toNat] at hle'
  omega

/-- **Along a chain of regions** the loop ends exactly if the iterator in the last
    one, queried one byte behind its beginning, does not begin too late. -/
theorem loopVisits_chain (hq : ∀ R ∈ O.regions, ∀ x, R.Contains x → O.Answers query x)
    {e : BasicRegion 64} {Z : OsRegion 64} (he : O.Reported e Z) (Rs : List (OsRegion 64))
    {r : BasicRegion 64} {R R' : OsRegion 64} (hr : O.Reported r R)
    (hchain : (R :: R' :: Rs).IsChain (fun S S' => S.limit = S'.base))
    (hasc : Ascending OsRegion.lo OsRegion.hi (R :: R' :: Rs))
    (hmem : ∀ S ∈ R' :: Rs, S ∈ O.regions) (hlast : (R' :: Rs).getLast? = some Z) :
    ∃ z, query (Z.base + 1) = .ok z
      ∧ (LoopVisits O query e r (R :: R' :: Rs) ↔ z.beginAddr ≤ e.beginAddr) := by
  induction Rs generalizing r R R' with
  | nil =>
      obtain rfl : R' = Z := Option.some.inj hlast
      have hZ : R.limit ≤ R'.base :=
        (List.pairwise_cons.mp hasc.sorted).1 R' (List.mem_singleton_self R')
      obtain ⟨r', hquery, hr', hiff⟩ := loopVisits_step hq he hr he.mem
        (List.isChain_cons_cons.mp hchain).1 hZ
      exact ⟨r', hquery, hiff.trans (loopVisits_last he hr')⟩
  | cons R'' Rs ih =>
      have hZmem : Z ∈ R'' :: Rs := by
        rw [List.getLast?_cons_cons] at hlast
        exact List.mem_of_getLast? hlast
      have hZ : R.limit ≤ Z.base :=
        (List.pairwise_cons.mp hasc.sorted).1 Z (List.mem_cons_of_mem _ hZmem)
      obtain ⟨hadj, hchain'⟩ := List.isChain_cons_cons.mp hchain
      obtain ⟨r', -, hr', hiff⟩ := loopVisits_step hq he hr
        (hmem R' (List.mem_cons_self ..)) hadj hZ
      obtain ⟨z, hquery, hrest⟩ := ih hr' hchain' hasc.tail
        (fun S hS => hmem S (List.mem_cons_of_mem _ hS)) hlast
      exact ⟨z, hquery, hiff.trans hrest⟩

/-- The address at which the loop from `first` queries the region `Z`. -/
def lastCursor (first : BitVec 64) (Z : OsRegion 64) : BitVec 64 :=
  if Z.base ≤ first then first else Z.base + 1

/-- In a region behind `first` the loop has entered at the second byte. -/
theorem lastCursor_behind {Z : OsRegion 64} (h : first.toNat < Z.base.toNat) :
    lastCursor first Z = Z.base + 1 := if_neg (Nat.not_le.mpr h)

/-- It lies in the region. -/
theorem lastCursor_contains {Z : OsRegion 64} (hZ : Z ∈ O.regions) (hle : first ≤ last)
    (hc : Z.Contains last) : Z.Contains (lastCursor first Z) := by
  rw [lastCursor]
  split
  · next hfirst => exact ⟨hfirst, Nat.lt_of_le_of_lt hle hc.2⟩
  · exact (O.second_byte hZ).1

/-- The loop between two iterators visits the regions from the one of the first. -/
theorem iteratorLoop_visits_iff {r e : BasicRegion 64} {Rs : List (OsRegion 64)}
    (hr : query first = .ok r) (he : query last = .ok e) :
    (∃ fuel visited, iteratorLoop query fuel first last = some (.ok visited)
      ∧ List.Forall₂ O.Reported visited Rs) ↔ LoopVisits O query e r Rs := by
  have hloop : ∀ fuel, iteratorLoop query fuel first last
      = (walk (QueryIterator.next query) (fun it => it.eq ⟨e⟩) fuel ⟨r⟩).map
        (fun s => s.map (List.map QueryIterator.region)) := by
    intro fuel
    rw [iteratorLoop, QueryIterator.ofAddress, QueryIterator.ofAddress, hr, he]
    rfl
  constructor
  · rintro ⟨fuel, visited, hrun, hall⟩
    rw [hloop] at hrun
    obtain ⟨s, hs, hmap⟩ := Option.map_eq_some_iff.mp hrun
    cases s with
    | error ex => cases hmap
    | ok its =>
        obtain rfl := Except.ok.inj hmap
        exact ⟨fuel, its, hs, hall⟩
  · rintro ⟨fuel, its, hrun, hall⟩
    exact ⟨fuel, its.map QueryIterator.region, by rw [hloop, hrun]; rfl, hall⟩

/-- **The loop of `query_iterator`** over a layout without holes ends, having
    visited each region from `first` to `last` once and in order, exactly if the
    iterator in the region of `last` does not begin behind the one of `last`. -/
theorem iteratorLoop_layout_iff (O : OsLayout 64)
    (query : BitVec 64 → Except Exn (BasicRegion 64)) (first last : BitVec 64)
    (hle : first ≤ last) (hcover : O.Covers first last)
    (hq : ∀ R ∈ O.regions, ∀ x, R.Contains x → O.Answers query x) :
    (∃ fuel visited, iteratorLoop query fuel first last = some (.ok visited)
        ∧ List.Forall₂ O.Reported visited (O.between first last))
      ↔ ∀ Z ∈ O.regions, Z.Contains last → ∀ z e, query (lastCursor first Z) = .ok z →
        query last = .ok e → z.beginAddr ≤ e.beginAddr := by
  obtain ⟨R, Rs, Z, hchain⟩ := hcover.exists_chain hle
  have hR := hchain.mem R (List.mem_cons_self ..)
  have hZ := hchain.last_region
  obtain ⟨r, hr, hrep⟩ := (hq R hR first hchain.first_mem).reported hR hchain.first_mem
  obtain ⟨e, he, herep⟩ := (hq Z hZ last hchain.last_mem).reported hZ hchain.last_mem
  -- the condition speaks about one region and two answers
  have hcond : ∀ z, query (lastCursor first Z) = .ok z →
      ((∀ Z ∈ O.regions, Z.Contains last → ∀ z e, query (lastCursor first Z) = .ok z →
        query last = .ok e → z.beginAddr ≤ e.beginAddr) ↔ z.beginAddr ≤ e.beginAddr) := by
    intro z hz
    constructor
    · intro h
      exact h Z hZ hchain.last_mem z e hz he
    · intro h Z' hZ' hc z' e' hz' he'
      obtain rfl : Z' = Z := O.ascending.eq_of_contains hZ' hZ hc hchain.last_mem
      obtain rfl := Except.ok.inj (hz.symm.trans hz')
      obtain rfl := Except.ok.inj (he.symm.trans he')
      exact h
  rw [hchain.between_eq, iteratorLoop_visits_iff hr he]
  cases Rs with
  | nil =>
      obtain rfl : R = Z := Option.some.inj hchain.getLast
      have hcursor : lastCursor first R = first := if_pos hchain.first_mem.1
      rw [loopVisits_last herep hrep, hcond r (by rw [hcursor]; exact hr)]
  | cons R' Rs =>
      obtain ⟨hlast, hbehind⟩ := hchain.behind
      obtain ⟨z, hz, hiff⟩ := loopVisits_chain hq herep Rs hrep hchain.isChain hchain.ascending
        (fun S hS => hchain.mem S (List.mem_cons_of_mem _ hS)) hlast
      rw [hiff, hcond z (by rw [lastCursor_behind hbehind]; exact hz)]

/-! ## The two systems -/

/-- A page boundary in front of an address is in front of its page. -/
theorem OsLayout.base_le_page (O : OsLayout 64) {R : OsRegion 64} (hR : R ∈ O.regions)
    {x : BitVec 64} (hx : R.base ≤ x) : R.base.toNat ≤ x.toNat / O.pageSize * O.pageSize := by
  have hpos : 0 < O.pageSize := Nat.lt_of_lt_of_le Nat.two_pos O.two_le
  obtain ⟨k, hk⟩ := O.base_dvd R hR
  rw [hk, Nat.mul_comm]
  refine Nat.mul_le_mul_right _ ((Nat.le_div_iff_mul_le hpos).mpr ?_)
  rw [Nat.mul_comm, ← hk]
  exact hx

/-- The cursor in the region of `last` is not on a later page than `last`: one byte
    behind a page boundary is on the page that begins there. -/
theorem lastCursor_page {Z : OsRegion 64} (hZ : Z ∈ O.regions) (hle : first ≤ last)
    (hc : Z.Contains last) :
    (lastCursor first Z).toNat / O.pageSize ≤ last.toNat / O.pageSize := by
  have hpos : 0 < O.pageSize := Nat.lt_of_lt_of_le Nat.two_pos O.two_le
  rw [lastCursor]
  split
  · exact Nat.div_le_div_right hle
  · obtain ⟨k, hk⟩ := O.base_dvd Z hZ
    have hpage : (Z.base + 1).toNat / O.pageSize = Z.base.toNat / O.pageSize := by
      rw [(O.second_byte hZ).2, hk, Nat.mul_add_div hpos, Nat.div_eq_of_lt O.two_le, Nat.add_zero,
        Nat.mul_div_cancel_left _ hpos]
    rw [hpage]
    exact Nat.div_le_div_right hc.1

/-- **On Windows the loop always visits the regions**: `VirtualQueryEx` rounds the
    address down to its page. -/
theorem windowsIterator_visits (O : OsLayout 64) (os : WindowsMemory) (first last : BitVec 64)
    (hle : first ≤ last) (hcover : O.Covers first last)
    (hos : ∀ R ∈ O.regions, ∀ x, R.Contains x →
      ∃ info, os.virtualQueryEx os.getCurrentProcess x = .ok info
        ∧ info.baseAddress.toNat = x.toNat / O.pageSize * O.pageSize
        ∧ info.baseAddress + info.regionSize = R.limit) :
    ∃ fuel visited, iteratorLoop (fun x => windowsQueryLocal 64 os x) fuel first last
        = some (.ok visited)
      ∧ List.Forall₂ O.Reported visited (O.between first last) := by
  -- what a query answers begins with the page of the address
  have hbegin : ∀ R ∈ O.regions, ∀ x, R.Contains x → ∃ r, windowsQueryLocal 64 os x = .ok r
      ∧ r.beginAddr.toNat = x.toNat / O.pageSize * O.pageSize ∧ r.endAddr = R.limit := by
    intro R hR x hc
    obtain ⟨info, hinfo, hbase, hend⟩ := hos R hR x hc
    obtain ⟨r, hr, hb, he⟩ := parseInfo_64 info
    refine ⟨r, (windowsQuery_of_info hinfo).trans hr, ?_, ?_⟩
    · rw [hb, hbase]
    · rw [he, hend]
  refine (iteratorLoop_layout_iff O _ first last hle hcover ?_).mpr ?_
  · intro R hR x hc
    obtain ⟨r, hr, hb, he⟩ := hbegin R hR x hc
    refine ⟨R, hR, hc, r, hr, ?_, ?_, he⟩
    · show R.base.toNat ≤ r.beginAddr.toNat
      rw [hb]
      exact O.base_le_page hR hc.1
    · show r.beginAddr.toNat ≤ x.toNat
      rw [hb]
      exact Nat.div_mul_le_self ..
  · intro Z hZ hc z e hz he
    obtain ⟨e', he', hbe, -⟩ := hbegin Z hZ last hc
    obtain rfl := Except.ok.inj (he'.symm.trans he)
    obtain ⟨z', hz', hbz, -⟩ := hbegin Z hZ _ (lastCursor_contains hZ hle hc)
    obtain rfl := Except.ok.inj (hz'.symm.trans hz)
    show z'.beginAddr.toNat ≤ e'.beginAddr.toNat
    rw [hbz, hbe]
    exact Nat.mul_le_mul_right _ (lastCursor_page hZ hle hc)

/-- `VirtualQueryEx` over the sample layout. -/
def samplePageQuery : WindowsMemory where
  virtualQueryEx := fun _ x => .ok {
    baseAddress := BitVec.ofNat 64 (x.toNat / 0x1000 * 0x1000)
    regionSize := (if x < 0x2000 then 0x2000 else 0x4000)
      - BitVec.ofNat 64 (x.toNat / 0x1000 * 0x1000)
    state := 0x1000
    protect := 4
    type := memPrivate }
  getCurrentProcess := -1

theorem sampleLayout_covers {first last : BitVec 64} (hlast : last < 0x4000) :
    sampleLayout.Covers first last := by
  intro x _ hx
  obtain ⟨R, hR, hc, -⟩ := sampleQuery_answers (Nat.lt_of_le_of_lt hx hlast)
  exact ⟨R, hR, hc⟩

/-- The regions of the sample layout. -/
theorem sampleLayout_cases {R : OsRegion 64} (hR : R ∈ sampleLayout.regions) {x : BitVec 64}
    (hc : R.Contains x) :
    (R = ⟨0, 0x2000⟩ ∧ x < 0x2000) ∨ (R = ⟨0x2000, 0x4000⟩ ∧ ¬ x < 0x2000 ∧ x < 0x4000) := by
  rcases List.mem_cons.mp hR with rfl | hR
  · exact Or.inl ⟨rfl, hc.2⟩
  · obtain rfl := List.mem_singleton.mp hR
    exact Or.inr ⟨rfl, Nat.not_lt.mpr hc.1, hc.2⟩

theorem windowsIterator_visits_sample :
    ∃ fuel visited, iteratorLoop (fun x => windowsQueryLocal 64 samplePageQuery x) fuel 0x1010
        0x2000 = some (.ok visited)
      ∧ List.Forall₂ sampleLayout.Reported visited (sampleLayout.between 0x1010 0x2000) := by
  refine windowsIterator_visits sampleLayout samplePageQuery 0x1010 0x2000 (by decide)
    (sampleLayout_covers (by decide)) ?_
  intro R hR x hc
  refine ⟨_, rfl, ?_, ?_⟩
  · have hx := x.isLt
    show (BitVec.ofNat 64 (x.toNat / 0x1000 * 0x1000)).toNat = x.toNat / 0x1000 * 0x1000
    rw [BitVec.toNat_ofNat, Nat.mod_eq_of_lt (by omega)]
  · show BitVec.ofNat 64 (x.toNat / 0x1000 * 0x1000)
      + ((if x < 0x2000 then 0x2000 else 0x4000) - BitVec.ofNat 64 (x.toNat / 0x1000 * 0x1000))
      = R.limit
    rcases sampleLayout_cases hR hc with ⟨rfl, hlt⟩ | ⟨rfl, hlt, -⟩
    · rw [if_pos hlt]
      bv_omega
    · rw [if_neg hlt]
      bv_omega

/-- The cursor in the region of `last` is in front of `last`, unless `last` is the
    first byte of that region and `first` lies in front of it. -/
theorem lastCursor_le_iff {Z : OsRegion 64} (hZ : Z ∈ O.regions) (hle : first ≤ last)
    (hc : Z.Contains last) :
    lastCursor first Z ≤ last ↔ ¬ (first < last ∧ Z.base = last) := by
  have hlo : Z.base.toNat ≤ last.toNat := hc.1
  have hnext := (O.second_byte hZ).2
  rw [lastCursor]
  split
  · next hfirst =>
      refine iff_of_true hle ?_
      rintro ⟨hlt, rfl⟩
      exact Nat.lt_irrefl _ (Nat.lt_of_lt_of_le hlt hfirst)
  · next hfirst =>
      have hfirst' : first.toNat < Z.base.toNat := Nat.lt_of_not_le hfirst
      constructor
      · rintro hcursor ⟨-, rfl⟩
        have hcursor' : (Z.base + 1).toNat ≤ Z.base.toNat := hcursor
        omega
      · intro hnot
        have hne : Z.base.toNat ≠ last.toNat := by
          intro heq
          refine hnot ⟨?_, BitVec.eq_of_toNat_eq heq⟩
          show first.toNat < last.toNat
          omega
        show (Z.base + 1).toNat ≤ last.toNat
        omega

/-- Of free memory the query answers with the rest behind the address. -/
theorem osxQuery_free {os : MachMemory} {R : OsRegion 64} {x : BitVec 64} {info : MachRegion}
    (hc : R.Contains x) (hinfo : os.machVmRegion os.machTaskSelf x = .ok info)
    (hbase : info.base = R.limit) :
    ∃ r, osxQueryLocal 64 os x = .ok r ∧ r.beginAddr = x ∧ r.endAddr = R.limit := by
  have hlt : x < info.base := by
    rw [hbase]
    exact hc.2
  refine ⟨_, osxQuery_of_info hinfo, ?_⟩
  rw [if_pos hlt]
  exact ⟨rfl, hbase⟩

/-- Of a region in use it answers with the whole. -/
theorem osxQuery_used {os : MachMemory} {R : OsRegion 64} {x : BitVec 64} {info : MachRegion}
    (hc : R.Contains x) (hinfo : os.machVmRegion os.machTaskSelf x = .ok info)
    (hbase : info.base = R.base) (hend : info.base + info.size = R.limit) :
    ∃ r, osxQueryLocal 64 os x = .ok r ∧ r.beginAddr = R.base ∧ r.endAddr = R.limit := by
  have hge : ¬ x < info.base := by
    rw [hbase]
    exact Nat.not_lt.mpr hc.1
  refine ⟨_, osxQuery_of_info hinfo, ?_⟩
  rw [if_neg hge]
  exact ⟨hbase, hend⟩

/-- **On macOS the loop misses an end on the first byte of free memory** `Free`
    behind `first`, and otherwise visits the regions. -/
theorem osxIterator_visits_iff (O : OsLayout 64) (Free : OsRegion 64 → Prop) (os : MachMemory)
    (first last : BitVec 64) (hle : first ≤ last) (hcover : O.Covers first last)
    (hos : ∀ R ∈ O.regions, ∀ x, R.Contains x →
      ∃ info, os.machVmRegion os.machTaskSelf x = .ok info
        ∧ (Free R → info.base = R.limit)
        ∧ (¬ Free R → info.base = R.base ∧ info.base + info.size = R.limit)) :
    (∃ fuel visited, iteratorLoop (fun x => osxQueryLocal 64 os x) fuel first last
          = some (.ok visited)
        ∧ List.Forall₂ O.Reported visited (O.between first last))
      ↔ ¬ (first < last ∧ ∃ R ∈ O.regions, Free R ∧ R.base = last) := by
  classical
  have hbegin : ∀ R ∈ O.regions, ∀ x, R.Contains x → ∃ r, osxQueryLocal 64 os x = .ok r
      ∧ r.beginAddr = (if Free R then x else R.base) ∧ r.endAddr = R.limit := by
    intro R hR x hc
    obtain ⟨info, hinfo, hfree, hused⟩ := hos R hR x hc
    by_cases h : Free R
    · rw [if_pos h]
      exact osxQuery_free hc hinfo (hfree h)
    · rw [if_neg h]
      exact osxQuery_used hc hinfo (hused h).1 (hused h).2
  have hanswers : ∀ R ∈ O.regions, ∀ x, R.Contains x →
      O.Answers (fun x => osxQueryLocal 64 os x) x := by
    intro R hR x hc
    obtain ⟨r, hr, hb, he⟩ := hbegin R hR x hc
    refine ⟨R, hR, hc, r, hr, ?_, ?_, he⟩
    · rw [hb]
      split
      · exact hc.1
      · exact Nat.le_refl _
    · rw [hb]
      split
      · exact Nat.le_refl _
      · exact hc.1
  rw [iteratorLoop_layout_iff O (fun x => osxQueryLocal 64 os x) first last hle hcover hanswers]
  constructor
  · rintro hall ⟨hlt, Z, hZ, hfree, hbase⟩
    have hc : Z.Contains last := by
      rw [← hbase]
      exact ⟨Nat.le_refl _, O.base_lt_limit Z hZ⟩
    obtain ⟨z, hz, hbz, -⟩ := hbegin Z hZ _ (lastCursor_contains hZ hle hc)
    obtain ⟨e, he, hbe, -⟩ := hbegin Z hZ _ hc
    have hle' := hall Z hZ hc z e hz he
    rw [hbz, hbe, if_pos hfree, if_pos hfree] at hle'
    exact (lastCursor_le_iff hZ hle hc).mp hle' ⟨hlt, hbase⟩
  · intro hnot Z hZ hc z e hz he
    obtain ⟨e', he', hbe, -⟩ := hbegin Z hZ last hc
    obtain rfl := Except.ok.inj (he'.symm.trans he)
    obtain ⟨z', hz', hbz, -⟩ := hbegin Z hZ _ (lastCursor_contains hZ hle hc)
    obtain rfl := Except.ok.inj (hz'.symm.trans hz)
    rw [hbz, hbe]
    split
    · next hfree =>
        exact (lastCursor_le_iff hZ hle hc).mpr (fun h => hnot ⟨h.1, Z, hZ, hfree, h.2⟩)
    · exact Nat.le_refl _

/-- `mach_vm_region` over the sample layout, whose second region is free. -/
def sampleFreeQuery : MachMemory where
  machVmRegion := fun _ x =>
    .ok { base := if x < 0x2000 then 0 else 0x4000, size := 0x2000, protection := 1,
          shareMode := 1, userTag := 0 }
  machTaskSelf := 1

/-- An end on the first byte of the free region. -/
theorem osxIterator_visits_iff_sample :
    ¬ ∃ fuel visited, iteratorLoop (fun x => osxQueryLocal 64 sampleFreeQuery x) fuel 0x1010 0x2000
        = some (.ok visited)
      ∧ List.Forall₂ sampleLayout.Reported visited (sampleLayout.between 0x1010 0x2000) := by
  have hiff := osxIterator_visits_iff sampleLayout (fun R => R = ⟨0x2000, 0x4000⟩) sampleFreeQuery
    0x1010 0x2000 (by decide) (sampleLayout_covers (by decide)) (by
      intro R hR x hc
      refine ⟨_, rfl, ?_, ?_⟩
      · rintro rfl
        exact if_neg (Nat.not_lt.mpr hc.1)
      · intro hne
        rcases sampleLayout_cases hR hc with ⟨rfl, hlt⟩ | ⟨rfl, -⟩
        · rw [if_pos hlt]
          exact ⟨rfl, rfl⟩
        · exact absurd rfl hne)
  rw [hiff, not_not]
  exact ⟨by decide, _, List.mem_cons_of_mem _ (List.mem_cons_self ..), rfl, rfl⟩

end VmUtils
