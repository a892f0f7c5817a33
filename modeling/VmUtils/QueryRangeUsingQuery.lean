import VmUtils.Region
import VmUtils.Lib.Intervals

/-! # `query_range` by repeated `query`

    `detail/query_range_using_query.inl`, the implementation on Windows and
    macOS: the loop queries the cursor and moves it to `end()` of the region it
    got, one byte behind the stored end.  Over a layout of page-aligned regions
    the loop returns, and it reports every region that meets the range except one
    that begins with the last byte of the range
    (`queryRangeUsingQuery_complete_iff`). -/

namespace VmUtils

open Intervals Relation

variable {w a : Nat}

/-- The loop of `query_range`.  Out of fuel is `none`. -/
def usingQueryLoop (query : BitVec w → Except Exn (BasicRegion w)) (checkedEnd : BitVec w) :
    Nat → BitVec w → List (BasicRegion w) → Option (Except Exn (List (BasicRegion w)))
  | 0, _, _ => none
  | fuel + 1, checkedBegin, regions =>
      if checkedBegin < checkedEnd then
        match query checkedBegin with
        | .error e => some (.error e)
        | .ok region => usingQueryLoop query checkedEnd fuel region.end (regions ++ [region])
      else some (.ok regions)

/-- `query_range(begin, end)` and `query_range(handle, begin, end)`, which differ
    in the query they call. -/
def queryRangeUsingQuery (query : BitVec w → Except Exn (BasicRegion w)) (fuel : Nat)
    (first last : BitVec a) : Option (Except Exn (List (BasicRegion w))) :=
  match addressCast w first, addressCast w last with
  | .ok checkedBegin, .ok checkedEnd => usingQueryLoop query checkedEnd fuel checkedBegin []
  | .error e, _ => some (.error e)
  | .ok _, .error e => some (.error e)

/-! ## The cursor -/

/-- One step of the cursor. -/
def CursorStep (query : BitVec w → Except Exn (BasicRegion w)) (last x y : BitVec w) : Prop :=
  x < last ∧ ∃ r, query x = .ok r ∧ y = r.end

/-- The loop reaches the cursor `y` from the cursor `x`. -/
def Visits (query : BitVec w → Except Exn (BasicRegion w)) (last : BitVec w) :
    BitVec w → BitVec w → Prop :=
  ReflTransGen (CursorStep query last)

variable {query : BitVec w → Except Exn (BasicRegion w)} {last : BitVec w}

/-- **A round of a loop that returns**: the cursor has reached the end, or its
    query succeeds and the loop goes on from the end of the answer. -/
theorem usingQueryLoop_eq_ok {fuel : Nat} {cur : BitVec w} {acc regions : List (BasicRegion w)}
    (h : usingQueryLoop query last (fuel + 1) cur acc = some (.ok regions)) :
    (¬ cur < last ∧ regions = acc)
      ∨ ∃ r, cur < last ∧ query cur = .ok r
        ∧ usingQueryLoop query last fuel r.end (acc ++ [r]) = some (.ok regions) := by
  rw [usingQueryLoop] at h
  by_cases hlt : cur < last
  · rw [if_pos hlt] at h
    rcases hq : query cur with e | r
    · rw [hq] at h
      exact nomatch Option.some.inj h
    · rw [hq] at h
      exact Or.inr ⟨r, hlt, rfl, h⟩
  · rw [if_neg hlt] at h
    exact Or.inl ⟨hlt, (Except.ok.inj (Option.some.inj h)).symm⟩

/-- Every region of the result was queried at a cursor below the end. -/
theorem usingQueryLoop_mem {fuel : Nat} {cur : BitVec w} {acc regions : List (BasicRegion w)}
    (h : usingQueryLoop query last fuel cur acc = some (.ok regions)) :
    ∀ r ∈ regions, r ∈ acc ∨ ∃ x, Visits query last cur x ∧ x < last ∧ query x = .ok r := by
  induction fuel generalizing cur acc with
  | zero => exact nomatch h
  | succ fuel ih =>
      intro r hr
      rcases usingQueryLoop_eq_ok h with ⟨-, rfl⟩ | ⟨r', hlt, hq, hrest⟩
      · exact Or.inl hr
      · have hstep : CursorStep query last cur r'.end := ⟨hlt, r', hq, rfl⟩
        rcases ih hrest r hr with hr | ⟨x, hx, hxl, hxq⟩
        · rcases List.mem_append.mp hr with hr | hr
          · exact Or.inl hr
          · obtain rfl := List.mem_singleton.mp hr
            exact Or.inr ⟨cur, ReflTransGen.refl, hlt, hq⟩
        · exact Or.inr ⟨x, ReflTransGen.head hstep hx, hxl, hxq⟩

/-- What was collected stays collected. -/
theorem usingQueryLoop_extends {fuel : Nat} {cur : BitVec w} {acc regions : List (BasicRegion w)}
    (h : usingQueryLoop query last fuel cur acc = some (.ok regions)) : acc <+: regions := by
  induction fuel generalizing cur acc with
  | zero => exact nomatch h
  | succ fuel ih =>
      rcases usingQueryLoop_eq_ok h with ⟨-, rfl⟩ | ⟨r, -, -, hrest⟩
      · exact List.prefix_refl _
      · exact List.IsPrefix.trans (List.prefix_append acc [r]) (ih hrest)

/-- Every cursor below the end contributes the region queried at it. -/
theorem usingQueryLoop_visited {fuel : Nat} {cur : BitVec w} {acc regions : List (BasicRegion w)}
    (h : usingQueryLoop query last fuel cur acc = some (.ok regions)) {x : BitVec w}
    (hx : Visits query last cur x) (hxl : x < last) :
    ∃ r ∈ regions, query x = .ok r := by
  induction fuel generalizing cur acc with
  | zero => exact nomatch h
  | succ fuel ih =>
      rcases usingQueryLoop_eq_ok h with ⟨hstop, -⟩ | ⟨r, hlt, hq, hrest⟩
      · -- the cursor that stops the loop visits itself only
        rcases ReflTransGen.cases_head hx with rfl | ⟨y, ⟨hlt, -⟩, -⟩
        · exact absurd hxl hstop
        · exact absurd hlt hstop
      · rcases ReflTransGen.cases_head hx with rfl | ⟨y, ⟨-, r', hq', rfl⟩, hy⟩
        · have hin : r ∈ acc ++ [r] := List.mem_append_right _ (List.mem_singleton_self r)
          exact ⟨r, (usingQueryLoop_extends hrest).subset hin, hq⟩
        · obtain rfl : r = r' := Except.ok.inj (hq.symm.trans hq')
          exact ih hrest hy

/-! ## Layouts -/

/-- A region of the operating system, from `base` up to `limit`. -/
structure OsRegion (w : Nat) where
  base : BitVec w
  limit : BitVec w
  deriving DecidableEq, Repr

def OsRegion.lo (R : OsRegion w) : Nat := R.base.toNat

def OsRegion.hi (R : OsRegion w) : Nat := R.limit.toNat

/-- The address lies in the region. -/
def OsRegion.Contains (R : OsRegion w) (x : BitVec w) : Prop := R.base ≤ x ∧ x < R.limit

/-- The region has a byte in `[first, last)`. -/
def OsRegion.Meets (R : OsRegion w) (first last : BitVec w) : Prop :=
  ∃ x, first ≤ x ∧ x < last ∧ R.Contains x

/-- Disjoint page-aligned regions in ascending order, below the top of the
    address type. -/
structure OsLayout (w : Nat) where
  regions : List (OsRegion w)
  pageSize : Nat
  two_le : 2 ≤ pageSize
  base_lt_limit : ∀ R ∈ regions, R.base < R.limit
  sorted : regions.Pairwise (fun R R' => R.limit ≤ R'.base)
  base_dvd : ∀ R ∈ regions, pageSize ∣ R.base.toNat
  limit_dvd : ∀ R ∈ regions, pageSize ∣ R.limit.toNat
  below_top : ∀ R ∈ regions, R.limit.toNat + 1 < 2 ^ w

theorem OsLayout.ascending (O : OsLayout w) : Ascending OsRegion.lo OsRegion.hi O.regions :=
  ⟨O.base_lt_limit, O.sorted⟩

/-- The query at `x` succeeds with a part of the region of `x` that contains `x`
    and runs to its end. -/
def OsLayout.Answers (O : OsLayout w) (query : BitVec w → Except Exn (BasicRegion w))
    (x : BitVec w) : Prop :=
  ∃ R ∈ O.regions, R.Contains x
    ∧ ∃ r, query x = .ok r ∧ R.base ≤ r.beginAddr ∧ r.beginAddr ≤ x ∧ r.endAddr = R.limit

/-- A returned region lies in a region of the layout. -/
def LiesIn (r : BasicRegion w) (R : OsRegion w) : Prop :=
  R.base ≤ r.beginAddr ∧ r.endAddr ≤ R.limit

variable {O : OsLayout w} {first : BitVec w}

/-- Behind the end of a region there is no page boundary. -/
theorem OsLayout.base_ne_succ (O : OsLayout w) {R S : OsRegion w} (hR : R ∈ O.regions)
    (hS : S ∈ O.regions) : R.base.toNat ≠ S.limit.toNat + 1 := by
  intro h
  have hdvd := O.base_dvd R hR
  rw [h, Nat.dvd_add_right (O.limit_dvd S hS)] at hdvd
  have := Nat.le_of_dvd Nat.one_pos hdvd
  have := O.two_le
  omega

/-- A region has room for a page. -/
theorem OsLayout.two_bytes (O : OsLayout w) {R : OsRegion w} (hR : R ∈ O.regions) :
    R.base.toNat + 2 ≤ R.limit.toNat := by
  have hlt : R.base.toNat < R.limit.toNat := O.base_lt_limit R hR
  have hdvd := Nat.dvd_sub (O.limit_dvd R hR) (O.base_dvd R hR)
  have := Nat.le_of_dvd (by omega) hdvd
  have := O.two_le
  omega

/-- The cursor behind an answered query. -/
theorem OsLayout.Answers.step {x : BitVec w} (h : O.Answers query x) (hlt : x < last) :
    ∃ R ∈ O.regions, R.Contains x ∧ ∃ y, CursorStep query last x y
      ∧ y.toNat = R.limit.toNat + 1 := by
  obtain ⟨R, hR, hc, r, hq, -, -, hend⟩ := h
  have htop := O.below_top R hR
  refine ⟨R, hR, hc, r.end, ⟨hlt, r, hq, rfl⟩, ?_⟩
  show (r.endAddr + 1#w).toNat = _
  rw [hend, BitVec.toNat_add, BitVec.toNat_ofNat, Nat.add_mod_mod, Nat.mod_eq_of_lt htop]

/-- **The loop returns** if every query it makes is answered. -/
theorem usingQueryLoop_returns {cur : BitVec w}
    (hq : ∀ x, Visits query last cur x → x < last → O.Answers query x)
    (acc : List (BasicRegion w)) :
    ∃ fuel regions, usingQueryLoop query last fuel cur acc = some (.ok regions) := by
  induction hn : last.toNat - cur.toNat using Nat.strong_induction_on generalizing cur acc with
  | _ n ih =>
      by_cases hlt : cur < last
      · -- the cursor moves behind the end of its region, without wrapping
        obtain ⟨R, hR, hc, y, ⟨-, r, hquery, rfl⟩, hy⟩ := (hq cur ReflTransGen.refl hlt).step hlt
        have hstep : CursorStep query last cur r.end := ⟨hlt, r, hquery, rfl⟩
        have hlt' : cur.toNat < last.toNat := hlt
        have hc' : cur.toNat < R.limit.toNat := hc.2
        obtain ⟨fuel, regions, hrun⟩ := ih (last.toNat - r.end.toNat) (by omega)
          (fun x hx => hq x (ReflTransGen.head hstep hx)) (acc ++ [r]) rfl
        refine ⟨fuel + 1, regions, ?_⟩
        rw [usingQueryLoop, if_pos hlt, hquery]
        exact hrun
      · refine ⟨1, acc, ?_⟩
        rw [usingQueryLoop, if_neg hlt]

/-- The cursor enters every region that meets the range in front of its last
    byte.  The induction is on how far the cursor is from the end of the region. -/
theorem visits_region {R : OsRegion w} (hR : R ∈ O.regions) {cur : BitVec w}
    (hq : ∀ x, Visits query last cur x → x < last → O.Answers query x)
    (hcur : cur < R.limit) (hlast : cur < last)
    (hbase : R.base ≤ cur ∨ R.base.toNat + 1 < last.toNat) :
    ∃ x, Visits query last cur x ∧ x < last ∧ R.Contains x := by
  induction hn : R.limit.toNat - cur.toNat using Nat.strong_induction_on generalizing cur with
  | _ n ih =>
      by_cases hin : R.base ≤ cur
      · exact ⟨cur, ReflTransGen.refl, hlast, hin, hcur⟩
      · have hroom : R.base.toNat + 1 < last.toNat := hbase.resolve_left hin
        have hin' : cur.toNat < R.base.toNat := Nat.lt_of_not_le hin
        obtain ⟨S, hS, hc, y, hstep, hy⟩ := (hq cur ReflTransGen.refl hlast).step hlast
        have hc1 : S.base.toNat ≤ cur.toNat := hc.1
        have hc2 : cur.toNat < S.limit.toNat := hc.2
        have htwo := O.two_bytes hR
        -- the region of the cursor ends in front of `R`
        have hle : S.limit.toNat ≤ R.base.toNat := by
          rcases O.ascending.trichotomy S hS R hR with rfl | h | h
          · omega
          · exact h
          · have h' : R.limit.toNat ≤ S.base.toNat := h
            omega
        have hcur' : cur.toNat < R.limit.toNat := hcur
        obtain ⟨x, hx, hxl, hxR⟩ := ih (R.limit.toNat - y.toNat) (by omega)
          (fun x hx => hq x (ReflTransGen.head hstep hx))
          (show y.toNat < R.limit.toNat by omega) (show y.toNat < last.toNat by omega)
          (Or.inr hroom) rfl
        exact ⟨x, ReflTransGen.head hstep hx, hxl, hxR⟩

/-- The cursor never stands on the first byte of a region, except at the
    beginning. -/
theorem visits_ne_base {R : OsRegion w} (hR : R ∈ O.regions)
    (hq : ∀ x, Visits query last first x → x < last → O.Answers query x)
    (hne : first ≠ R.base) : ¬ Visits query last first R.base := by
  intro h
  rcases ReflTransGen.cases_tail h with heq | ⟨y, hy, hlt, r, hquery, hend⟩
  · exact hne heq.symm
  · obtain ⟨S, hS, -, z, ⟨-, r', hquery', rfl⟩, hz⟩ := (hq y hy hlt).step hlt
    obtain rfl : r = r' := Except.ok.inj (hquery.symm.trans hquery')
    rw [← hend] at hz
    exact O.base_ne_succ hR hS hz

/-- A region that begins with the last byte of the range is not reported. -/
theorem not_reported {R : OsRegion w} (hR : R ∈ O.regions)
    (hq : ∀ x, Visits query last first x → x < last → O.Answers query x)
    (hfirst : first < R.base) (hlast : R.base.toNat + 1 = last.toNat) {fuel : Nat}
    {regions : List (BasicRegion w)}
    (h : usingQueryLoop query last fuel first [] = some (.ok regions)) :
    ¬ ∃ r ∈ regions, LiesIn r R := by
  rintro ⟨r, hr, hbase, hlimit⟩
  rcases usingQueryLoop_mem h r hr with hr | ⟨x, hx, hxl, hquery⟩
  · exact nomatch hr
  · obtain ⟨S, hS, hc, r', hquery', -, hle, hend⟩ := hq x hx hxl
    obtain rfl : r = r' := Except.ok.inj (hquery.symm.trans hquery')
    -- the cursor lies in `R` below the end of the range: it is its first byte
    have hxb : x = R.base := by
      have h1 : R.base.toNat ≤ r.beginAddr.toNat := hbase
      have h2 : r.beginAddr.toNat ≤ x.toNat := hle
      have h3 : x.toNat < last.toNat := hxl
      exact BitVec.eq_of_toNat_eq (by omega)
    have hne : first ≠ R.base := by
      rintro rfl
      exact absurd hfirst (Nat.lt_irrefl _)
    rw [hxb] at hx
    exact visits_ne_base hR hq hne hx

/-- **`query_range` reports every region that meets the range** exactly if no
    region behind its beginning starts with the last byte of the range. -/
theorem queryRangeUsingQuery_complete_iff (O : OsLayout w)
    (query : BitVec w → Except Exn (BasicRegion w)) (first last : BitVec a)
    (checkedBegin checkedEnd : BitVec w) (hfirst : addressCast w first = .ok checkedBegin)
    (hlast : addressCast w last = .ok checkedEnd)
    (hq : ∀ x, Visits query checkedEnd checkedBegin x → x < checkedEnd → O.Answers query x) :
    (∃ fuel regions, queryRangeUsingQuery query fuel first last = some (.ok regions)
        ∧ ∀ R ∈ O.regions, R.Meets checkedBegin checkedEnd → ∃ r ∈ regions, LiesIn r R)
      ↔ ∀ R ∈ O.regions, checkedBegin < R.base → R.base.toNat + 1 ≠ checkedEnd.toNat := by
  have hunfold : ∀ fuel, queryRangeUsingQuery query fuel first last
      = usingQueryLoop query checkedEnd fuel checkedBegin [] := by
    intro fuel
    rw [queryRangeUsingQuery, hfirst, hlast]
  constructor
  · rintro ⟨fuel, regions, hrun, hall⟩ R hR hbase hend
    rw [hunfold] at hrun
    refine not_reported hR hq hbase hend hrun (hall R hR ⟨R.base, ?_, ?_, ?_, ?_⟩)
    · exact Nat.le_of_lt hbase
    · show R.base.toNat < checkedEnd.toNat
      omega
    · exact Nat.le_refl _
    · exact O.base_lt_limit R hR
  · intro hcond
    obtain ⟨fuel, regions, hrun⟩ := usingQueryLoop_returns hq []
    refine ⟨fuel, regions, (hunfold fuel).trans hrun, ?_⟩
    rintro R hR ⟨b, hb1, hb2, hb3, hb4⟩
    have h1 : checkedBegin.toNat ≤ b.toNat := hb1
    have h2 : b.toNat < checkedEnd.toNat := hb2
    have h3 : R.base.toNat ≤ b.toNat := hb3
    have h4 : b.toNat < R.limit.toNat := hb4
    have hbase : R.base ≤ checkedBegin ∨ R.base.toNat + 1 < checkedEnd.toNat := by
      by_cases h : R.base ≤ checkedBegin
      · exact Or.inl h
      · have := hcond R hR (Nat.lt_of_not_le h)
        exact Or.inr (by omega)
    obtain ⟨x, hx, hxl, hxR⟩ := visits_region hR hq
      (show checkedBegin.toNat < R.limit.toNat by omega)
      (show checkedBegin.toNat < checkedEnd.toNat by omega) hbase
    obtain ⟨r, hr, hquery⟩ := usingQueryLoop_visited hrun hx hxl
    obtain ⟨S, hS, hc, r', hquery', hbegin, -, hend⟩ := hq x hx hxl
    obtain rfl : r = r' := Except.ok.inj (hquery.symm.trans hquery')
    obtain rfl : S = R := O.ascending.eq_of_contains hS hR hc hxR
    refine ⟨r, hr, hbegin, ?_⟩
    rw [hend]
    exact Nat.le_refl _

/-- Two regions that cover the first four pages. -/
def sampleLayout : OsLayout 64 where
  regions := [⟨0, 0x2000⟩, ⟨0x2000, 0x4000⟩]
  pageSize := 0x1000
  two_le := by decide
  base_lt_limit := by decide
  sorted := by decide
  base_dvd := by decide
  limit_dvd := by decide
  below_top := by decide

/-- A query that answers from the sample layout. -/
def sampleQuery (x : BitVec 64) : Except Exn (BasicRegion 64) :=
  if x < 0x2000 then .ok (.mapped 0 0x2000 ⟨1⟩ false) else .ok (.mapped 0x2000 0x4000 ⟨3⟩ false)

theorem sampleQuery_answers {x : BitVec 64} (h : x < 0x4000) :
    sampleLayout.Answers sampleQuery x := by
  by_cases hx : x < 0x2000
  · refine ⟨⟨0, 0x2000⟩, List.mem_cons_self .., ⟨Nat.zero_le _, hx⟩, _, if_pos hx, ?_⟩
    exact ⟨Nat.zero_le _, Nat.zero_le _, rfl⟩
  · have hge : (0x2000 : BitVec 64) ≤ x := Nat.le_of_not_lt hx
    refine ⟨⟨0x2000, 0x4000⟩, List.mem_cons_of_mem _ (List.mem_cons_self ..), ⟨hge, h⟩, _,
      if_neg hx, ?_⟩
    exact ⟨Nat.le_refl _, hge, rfl⟩

theorem queryRangeUsingQuery_complete_iff_sample :
    (∃ fuel regions, queryRangeUsingQuery sampleQuery fuel (0x1000 : BitVec 64) 0x3000
          = some (.ok regions)
        ∧ ∀ R ∈ sampleLayout.regions, R.Meets 0x1000 0x3000 → ∃ r ∈ regions, LiesIn r R)
      ↔ ∀ R ∈ sampleLayout.regions, (0x1000 : BitVec 64) < R.base →
          R.base.toNat + 1 ≠ (0x3000 : BitVec 64).toNat :=
  queryRangeUsingQuery_complete_iff sampleLayout sampleQuery (0x1000 : BitVec 64) 0x3000 0x1000
    0x3000 rfl rfl (fun x _ hx => sampleQuery_answers (Nat.lt_trans hx (by decide)))

/-- A range that ends one byte inside the second region. -/
theorem sampleQuery_incomplete :
    (∀ x, x < 0x4000 → sampleLayout.Answers sampleQuery x)
      ∧ ¬ ∃ fuel regions, queryRangeUsingQuery sampleQuery fuel (0x1000 : BitVec 64) 0x2001
          = some (.ok regions)
        ∧ ∀ R ∈ sampleLayout.regions, R.Meets 0x1000 0x2001 → ∃ r ∈ regions, LiesIn r R := by
  refine ⟨fun x hx => sampleQuery_answers hx, ?_⟩
  rintro ⟨fuel, regions, hrun, hall⟩
  have hrun' : usingQueryLoop sampleQuery (0x2001 : BitVec 64) fuel 0x1000 []
      = some (.ok regions) := hrun
  have hmem : ⟨0x2000, 0x4000⟩ ∈ sampleLayout.regions :=
    List.mem_cons_of_mem _ (List.mem_cons_self ..)
  have hmeets : (OsRegion.mk 0x2000 0x4000 : OsRegion 64).Meets 0x1000 0x2001 :=
    ⟨0x2000, by decide, by decide, by decide, by decide⟩
  refine not_reported hmem ?_ (by decide) rfl hrun' (hall _ hmem hmeets)
  intro x _ hx
  exact sampleQuery_answers (Nat.lt_trans hx (by decide))

end VmUtils
