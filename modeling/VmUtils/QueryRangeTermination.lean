import VmUtils.QueryRangeErrorCode

/-! # The loop of `query_range` ends

    The loop of `detail/query_range_using_query.inl` has no counter.  Its measure
    is the list of the regions of the layout that meet the range from the cursor
    on: a round takes the region of the cursor off that list, because `end()` of
    the answer lies behind it and does not wrap (`meeting_cons`).  So the loop
    makes no more rounds than there are regions in the range, and reports the answer
    of every round, each region at most once (`ReportsOnce`). -/

namespace VmUtils

open Intervals Relation

variable {w a : Nat} {O : OsLayout w} {first last : BitVec w}
  {query : BitVec w → Except Exn (BasicRegion w)}

/-! ## The measure -/

theorem meets_iff {R : OsRegion w} :
    R.Meets first last
      ↔ first < last ∧ first < R.limit ∧ R.base < last ∧ R.base < R.limit :=
  common_address_iff

instance (first last : BitVec w) (R : OsRegion w) : Decidable (R.Meets first last) :=
  decidable_of_iff _ meets_iff.symm

/-- The regions of the layout with a byte in `[first, last)`, in order. -/
def OsLayout.meeting (O : OsLayout w) (first last : BitVec w) : List (OsRegion w) :=
  O.regions.filter (fun R => R.Meets first last)

theorem mem_meeting {R : OsRegion w} :
    R ∈ O.meeting first last ↔ R ∈ O.regions ∧ R.Meets first last := by
  rw [OsLayout.meeting, List.mem_filter, decide_eq_true_eq]

/-- Behind its end a region is off the list. -/
theorem meeting_cons {R : OsRegion w} (hR : R ∈ O.regions) {x y : BitVec w}
    (hc : R.Contains x) (hlt : x < last) (hy : y.toNat = R.limit.toNat + 1) :
    (R :: O.meeting y last).Sublist (O.meeting x last) := by
  have hxy : x ≤ y := by
    have hx : x.toNat < R.limit.toNat := hc.2
    show x.toNat ≤ y.toNat
    omega
  have hoff : ∀ S ∈ O.regions, S.limit ≤ R.limit → ¬ S.Meets y last := by
    intro S _ hle hmeets
    obtain ⟨-, h, -⟩ := meets_iff.mp hmeets
    have h' : y.toNat < S.limit.toNat := h
    have hle' : S.limit.toNat ≤ R.limit.toNat := hle
    omega
  obtain ⟨pre, post, hsplit⟩ := List.append_of_mem hR
  have hsorted := O.sorted
  rw [hsplit] at hsorted
  -- nothing in front of `R` reaches `y`
  have hpre : pre.filter (fun S => decide (S.Meets y last)) = [] := by
    refine List.filter_eq_nil_iff.mpr ?_
    intro S hS hmeets
    have hmem : S ∈ O.regions := by
      rw [hsplit]
      exact List.mem_append_left _ hS
    have hle : S.limit ≤ R.base :=
      (List.pairwise_append.mp hsorted).2.2 S hS R (List.mem_cons_self ..)
    have hlt' := O.base_lt_limit R hR
    exact hoff S hmem (Nat.le_trans hle (Nat.le_of_lt hlt')) (of_decide_eq_true hmeets)
  have hself : (R :: post).filter (fun S => decide (S.Meets y last))
      = post.filter (fun S => decide (S.Meets y last)) :=
    List.filter_cons_of_neg (fun h => hoff R hR (Nat.le_refl _) (of_decide_eq_true h))
  have hmeets : (R :: post).filter (fun S => decide (S.Meets x last))
      = R :: post.filter (fun S => decide (S.Meets x last)) :=
    List.filter_cons_of_pos (decide_eq_true ⟨x, Nat.le_refl _, hlt, hc⟩)
  have hpost : (post.filter (fun S => decide (S.Meets y last))).Sublist
      (post.filter (fun S => decide (S.Meets x last))) := by
    refine List.monotone_filter_right _ ?_
    intro S hS
    obtain ⟨b, h1, h2, h3⟩ := of_decide_eq_true hS
    exact decide_eq_true ⟨b, Nat.le_trans hxy h1, h2, h3⟩
  rw [OsLayout.meeting, OsLayout.meeting, hsplit, List.filter_append, List.filter_append, hpre,
    List.nil_append, hself, hmeets]
  exact (hpost.cons_cons R).trans (List.sublist_append_right _ _)

/-! ## The loop -/

/-- The answer `r` is a part of the region `R` that runs to its end. -/
structure OsLayout.Reported (O : OsLayout w) (r : BasicRegion w) (R : OsRegion w) : Prop where
  mem : R ∈ O.regions
  base_le : R.base ≤ r.beginAddr
  begin_lt : r.beginAddr < R.limit
  end_eq : r.endAddr = R.limit

/-- **The loop from any cursor** takes at most one round for every region that
    meets the rest of the range, and one to stop. -/
theorem usingQueryLoop_meeting (n : Nat) :
    ∀ (cur : BitVec w) (acc : List (BasicRegion w)), (O.meeting cur last).length ≤ n →
      (∀ x, Visits query last cur x → x < last → O.Answers query x) →
      ∃ regions Rs, usingQueryLoop query last (n + 1) cur acc = some (.ok (acc ++ regions))
        ∧ Rs.Sublist (O.meeting cur last) ∧ List.Forall₂ O.Reported regions Rs
        ∧ ∀ r ∈ regions, ∃ x, cur ≤ x ∧ x < last ∧ r.begin ≤ x ∧ x < r.begin + r.size := by
  induction n with
  | zero =>
      intro cur acc hlen hq
      have hstop : ¬ cur < last := by
        intro hlt
        obtain ⟨R, hR, hc, -⟩ := hq cur ReflTransGen.refl hlt
        have hmem : R ∈ O.meeting cur last := mem_meeting.mpr ⟨hR, cur, Nat.le_refl _, hlt, hc⟩
        exact Nat.lt_irrefl 0 (Nat.lt_of_lt_of_le (List.length_pos_of_mem hmem) hlen)
      refine ⟨[], [], ?_, List.nil_sublist _, List.Forall₂.nil, ?_⟩
      · rw [usingQueryLoop, if_neg hstop, List.append_nil]
      · intro r hr
        cases hr
  | succ n ih =>
      intro cur acc hlen hq
      by_cases hlt : cur < last
      · have hans := hq cur ReflTransGen.refl hlt
        obtain ⟨R, hR, hc, y, hstep, hy⟩ := hans.step hlt
        obtain ⟨S, hS, hcS, r, hquery, hbase, hle, hend⟩ := hans
        obtain rfl : S = R := O.ascending.eq_of_contains hS hR hcS hc
        obtain rfl : y = r.end := by
          obtain ⟨-, r', hquery', hy'⟩ := hstep
          rw [hy', Except.ok.inj (hquery'.symm.trans hquery)]
        have hsub := meeting_cons hR hc hlt hy
        -- the list got shorter by the region of the cursor
        have hshort : (O.meeting r.end last).length ≤ n := by
          have hcons := hsub.length_le
          rw [List.length_cons] at hcons
          omega
        obtain ⟨regions, Rs, hrun, hRs, hrep, hshare⟩ := ih r.end (acc ++ [r]) hshort
          (fun x hx => hq x (ReflTransGen.head hstep hx))
        have hcur : cur.toNat < S.limit.toNat := hc.2
        refine ⟨r :: regions, S :: Rs, ?_, (hRs.cons_cons S).trans hsub,
          List.Forall₂.cons ⟨hS, hbase, Nat.lt_of_le_of_lt hle hc.2, hend⟩ hrep, ?_⟩
        · rw [usingQueryLoop, if_pos hlt, hquery]
          show usingQueryLoop query last (n + 1) r.end (acc ++ [r]) = _
          rw [hrun, List.append_assoc]
          rfl
        · intro r' hr'
          rcases List.mem_cons.mp hr' with rfl | hr'
          · refine ⟨cur, Nat.le_refl _, hlt, hle, ?_⟩
            rw [begin_add_size, hend]
            exact hcS.2
          · obtain ⟨x, h1, h2⟩ := hshare r' hr'
            have h1' : r.end.toNat ≤ x.toNat := h1
            exact ⟨x, show cur.toNat ≤ x.toNat by omega, h2⟩
      · refine ⟨[], [], ?_, List.nil_sublist _, List.Forall₂.nil, ?_⟩
        · rw [usingQueryLoop, if_neg hlt, List.append_nil]
        · intro r hr
          cases hr

/-! ## What is returned -/

/-- The regions are the answers for the addresses the loop queries.  They come in
    order and no region of the layout comes twice; each has a byte in
    `[first, last)`, and there is at most one for each region of the layout that has
    one. -/
structure ReportsOnce (O : OsLayout w) (query : BitVec w → Except Exn (BasicRegion w))
    (first last : BitVec w) (regions : List (BasicRegion w)) : Prop where
  answers : ∀ r, r ∈ regions ↔ ∃ x, Visits query last first x ∧ x < last ∧ query x = .ok r
  begins : regions.Pairwise (fun r r' => r.begin < r'.begin)
  once : regions.Pairwise (fun r r' => ∀ R ∈ O.regions, ¬ (LiesIn r R ∧ LiesIn r' R))
  lies : ∀ r ∈ regions, ∃ R ∈ O.regions, LiesIn r R
  meets : ∀ r ∈ regions, ∃ x, first ≤ x ∧ x < last ∧ r.begin ≤ x ∧ x < r.begin + r.size
  length_le : regions.length ≤ (O.meeting first last).length

/-- An answer lies in no other region of the layout. -/
theorem OsLayout.Reported.eq_of_liesIn {r : BasicRegion w} {R R' : OsRegion w}
    (h : O.Reported r R) (hR' : R' ∈ O.regions) (hlies : LiesIn r R') : R' = R := by
  have hlt : r.beginAddr < R'.limit :=
    Nat.lt_of_lt_of_le h.begin_lt (h.end_eq ▸ hlies.2)
  exact O.ascending.eq_of_contains hR' h.mem ⟨hlies.1, hlt⟩ ⟨h.base_le, h.begin_lt⟩

/-- **`query_range` between two addresses of the region type.** -/
theorem usingQueryLoop_reportsOnce
    (hq : ∀ x, Visits query last first x → x < last → O.Answers query x) :
    ∃ regions, usingQueryLoop query last ((O.meeting first last).length + 1) first []
        = some (.ok regions) ∧ ReportsOnce O query first last regions := by
  obtain ⟨regions, Rs, hrun, hRs, hrep, hmeets⟩ :=
    usingQueryLoop_meeting (O.meeting first last).length first [] (Nat.le_refl _) hq
  have hsorted : Rs.Pairwise (fun R R' => R.limit ≤ R'.base) :=
    O.sorted.sublist (hRs.trans (List.filter_sublist ..))
  refine ⟨regions, hrun, ?_, ?_, ?_, ?_, hmeets, ?_⟩
  · intro r
    constructor
    · intro hr
      exact (usingQueryLoop_mem hrun r hr).resolve_left List.not_mem_nil
    · rintro ⟨x, hx, hlt, hquery⟩
      obtain ⟨r', hr', hquery'⟩ := usingQueryLoop_visited hrun hx hlt
      obtain rfl : r = r' := Except.ok.inj (hquery.symm.trans hquery')
      exact hr'
  · refine pairwise_of_forall₂ ?_ hrep hsorted
    intro r R r' R' h h' hle
    exact Nat.lt_of_lt_of_le h.begin_lt (Nat.le_trans hle h'.base_le)
  · refine pairwise_of_forall₂ ?_ hrep hsorted
    rintro r R r' R' h h' hle S hS ⟨hlies, hlies'⟩
    have heq : R = R' := (h.eq_of_liesIn hS hlies).symm.trans (h'.eq_of_liesIn hS hlies')
    rw [heq] at hle
    exact absurd (O.base_lt_limit R' h'.mem) (Nat.not_lt.mpr hle)
  · intro r hr
    obtain ⟨R, -, h⟩ := exists_of_forall₂ hrep r hr
    refine ⟨R, h.mem, h.base_le, ?_⟩
    rw [h.end_eq]
    exact Nat.le_refl _
  · rw [hrep.length_eq]
    exact hRs.length_le

/-- A bound that does not fit the region type ends the call in front of the loop. -/
theorem queryRangeUsingQuery_of_cast_error {query : BitVec w → Except Exn (BasicRegion w)}
    {first last : BitVec a}
    (h : 2 ^ w ≤ first.toNat ∨ 2 ^ w ≤ last.toNat) :
    ∃ what, ∀ fuel,
      queryRangeUsingQuery query fuel first last = some (.error (.overflowError what)) := by
  by_cases hfirst : 2 ^ w ≤ first.toNat
  · obtain ⟨what, hwhat⟩ := addressCast_of_le hfirst
    refine ⟨what, fun fuel => ?_⟩
    rw [queryRangeUsingQuery, hwhat]
  · obtain ⟨what, hwhat⟩ := addressCast_of_le (h.resolve_left hfirst)
    refine ⟨what, fun fuel => ?_⟩
    rw [queryRangeUsingQuery, (addressCast_of_lt (Nat.lt_of_not_le hfirst)).1, hwhat]

/-- The call with bounds that fit. -/
theorem queryRangeUsingQuery_reportsOnce {first last : BitVec a} {checkedBegin checkedEnd : BitVec w}
    (hfirst : addressCast w first = .ok checkedBegin) (hlast : addressCast w last = .ok checkedEnd)
    (hq : ∀ x, Visits query checkedEnd checkedBegin x → x < checkedEnd → O.Answers query x) :
    ∃ regions, queryRangeUsingQuery query ((O.meeting checkedBegin checkedEnd).length + 1) first last
        = some (.ok regions) ∧ ReportsOnce O query checkedBegin checkedEnd regions := by
  obtain ⟨regions, hrun, honce⟩ := usingQueryLoop_reportsOnce hq
  refine ⟨regions, ?_, honce⟩
  rw [queryRangeUsingQuery, hfirst, hlast]
  exact hrun

/-- **The loop of `query_range` ends** after at most one round for every region of
    the layout that meets the range, with each region once.  Bounds that do not
    fit the region type end the call in front of the loop. -/
theorem queryRangeUsingQuery_terminates (O : OsLayout w)
    (query : BitVec w → Except Exn (BasicRegion w)) (first last : BitVec a)
    (hq : ∀ checkedBegin checkedEnd, addressCast w first = .ok checkedBegin →
      addressCast w last = .ok checkedEnd →
      ∀ x, Visits query checkedEnd checkedBegin x → x < checkedEnd → O.Answers query x) :
    ((2 ^ w ≤ first.toNat ∨ 2 ^ w ≤ last.toNat) ∧ ∃ what, ∀ fuel,
        queryRangeUsingQuery query fuel first last = some (.error (.overflowError what)))
      ∨ ∃ checkedBegin checkedEnd regions,
        addressCast w first = .ok checkedBegin ∧ checkedBegin.toNat = first.toNat
        ∧ addressCast w last = .ok checkedEnd ∧ checkedEnd.toNat = last.toNat
        ∧ queryRangeUsingQuery query ((O.meeting checkedBegin checkedEnd).length + 1) first last
          = some (.ok regions)
        ∧ ReportsOnce O query checkedBegin checkedEnd regions := by
  by_cases hwide : 2 ^ w ≤ first.toNat ∨ 2 ^ w ≤ last.toNat
  · exact Or.inl ⟨hwide, queryRangeUsingQuery_of_cast_error hwide⟩
  · obtain ⟨hfirst, hfirst'⟩ :=
      addressCast_of_lt (Nat.lt_of_not_le (fun h => hwide (Or.inl h)))
    obtain ⟨hlast, hlast'⟩ :=
      addressCast_of_lt (Nat.lt_of_not_le (fun h => hwide (Or.inr h)))
    obtain ⟨regions, hrun, honce⟩ :=
      queryRangeUsingQuery_reportsOnce hfirst hlast (hq _ _ hfirst hlast)
    exact Or.inr ⟨_, _, regions, hfirst, hfirst', hlast, hlast', hrun, honce⟩

theorem queryRangeUsingQuery_terminates_sample :
    ((2 ^ 64 ≤ (0x1000 : BitVec 64).toNat ∨ 2 ^ 64 ≤ (0x3000 : BitVec 64).toNat) ∧ ∃ what, ∀ fuel,
        queryRangeUsingQuery sampleQuery fuel (0x1000 : BitVec 64) 0x3000
          = some (.error (.overflowError what)))
      ∨ ∃ checkedBegin checkedEnd regions,
        addressCast 64 (0x1000 : BitVec 64) = .ok checkedBegin
        ∧ checkedBegin.toNat = (0x1000 : BitVec 64).toNat
        ∧ addressCast 64 (0x3000 : BitVec 64) = .ok checkedEnd
        ∧ checkedEnd.toNat = (0x3000 : BitVec 64).toNat
        ∧ queryRangeUsingQuery sampleQuery
            ((sampleLayout.meeting checkedBegin checkedEnd).length + 1) (0x1000 : BitVec 64) 0x3000
          = some (.ok regions)
        ∧ ReportsOnce sampleLayout sampleQuery checkedBegin checkedEnd regions :=
  queryRangeUsingQuery_terminates sampleLayout sampleQuery 0x1000 0x3000 (by
    intro checkedBegin checkedEnd _ hlast x _ hx
    rw [addressCast_self] at hlast
    obtain rfl := Except.ok.inj hlast
    exact sampleQuery_answers (Nat.lt_trans hx (by decide)))

/-! ## The platforms -/

/-- `VirtualQueryEx` describes a part of the region of the address that runs to
    its end. -/
def WindowsMemory.Describes (os : WindowsMemory) (handle : Int) (O : OsLayout 64)
    (x : BitVec 64) : Prop :=
  ∃ R ∈ O.regions, R.Contains x ∧ ∃ info, os.virtualQueryEx handle x = .ok info
    ∧ R.base ≤ info.baseAddress ∧ info.baseAddress ≤ x
    ∧ info.baseAddress + info.regionSize = R.limit

/-- `mach_vm_region` finds the region of the address, or the one that begins where
    the free memory around the address ends. -/
def MachMemory.Describes (os : MachMemory) (handle : Int) (O : OsLayout 64)
    (x : BitVec 64) : Prop :=
  ∃ R ∈ O.regions, R.Contains x ∧ ∃ info, os.machVmRegion handle x = .ok info
    ∧ ((R.base ≤ info.base ∧ info.base ≤ x ∧ info.base + info.size = R.limit)
      ∨ info.base = R.limit)

/-- The loop of 64-bit Windows, for any process. -/
theorem windowsQueryRange_reportsOnce (O : OsLayout 64) (os : WindowsMemory) (handle : Int)
    (first last : BitVec 64) (hos : ∀ x, x < last → os.Describes handle O x) :
    ∃ regions, queryRangeUsingQuery (windowsQuery 64 os handle)
        ((O.meeting first last).length + 1) first last = some (.ok regions)
      ∧ ReportsOnce O (windowsQuery 64 os handle) first last regions := by
  refine queryRangeUsingQuery_reportsOnce (addressCast_self first) (addressCast_self last) ?_
  intro x _ hx
  obtain ⟨R, hR, hc, info, hinfo, hbase, hle, hend⟩ := hos x hx
  exact windowsQuery_answers hR hc hinfo hbase hle hend

/-- The loop of macOS, for any task. -/
theorem osxQueryRange_reportsOnce (O : OsLayout 64) (os : MachMemory) (handle : Int)
    (first last : BitVec 64) (hos : ∀ x, x < last → os.Describes handle O x) :
    ∃ regions, queryRangeUsingQuery (osxQuery 64 os handle)
        ((O.meeting first last).length + 1) first last = some (.ok regions)
      ∧ ReportsOnce O (osxQuery 64 os handle) first last regions := by
  refine queryRangeUsingQuery_reportsOnce (addressCast_self first) (addressCast_self last) ?_
  intro x _ hx
  obtain ⟨R, hR, hc, info, hinfo, hregion⟩ := hos x hx
  exact osxQuery_answers hR hc hinfo hregion

end VmUtils
