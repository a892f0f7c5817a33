import VmUtils.OsxQuery
import VmUtils.WindowsQuery

/-! # `query_range` with an error code, by repeated `query`

    The two overloads of `detail/query_range_using_query.inl` that take `ec`.
    They push the answer of a query before they look at `ec`, and a query that
    succeeds leaves `ec` alone.  So an error that the caller left in `ec` ends
    the loop behind its first query (`queryRangeEc_sameVector_iff`), and what a
    failing query returned is the last region of the result
    (`queryRangeEc_keeps_failed`). -/

namespace VmUtils

open Relation

variable {w a : Nat}

/-! ## The platforms -/

/-- The platforms whose `query_range` repeats `query`: 64-bit and 32-bit Windows
    and macOS.  On Windows `stack x` is what the stack holds at `info` when the
    query of `x` begins.  The queries are those on numbers: what the casts of 32-bit
    Windows write is in `wow64QueryRangeIn` and `wow64QueryRangeEcIn`. -/
inductive QueryOs (w : Nat) where
  | windows (memory : WindowsMemory) (stack : BitVec w → MemoryBasicInformation)
  | windows32 (memory : WindowsMemory 32) (stack : BitVec w → MemoryBasicInformation 32)
  | osx (memory : MachMemory)

namespace QueryOs

/-- `query(address)`. -/
def query : QueryOs w → BitVec w → Except Exn (BasicRegion w)
  | .windows memory _, address => windowsQueryLocal w memory address
  | .windows32 memory _, address => windowsQueryLocal w memory address
  | .osx memory, address => osxQueryLocal w memory address

/-- `query(address, ec)`. -/
def queryEc : QueryOs w → BitVec w → ErrorCode → Except Exn (BasicRegion w × ErrorCode)
  | .windows memory stack, address, ec => windowsQueryLocalEc w memory (stack address) address ec
  | .windows32 memory stack, address, ec => windowsQueryLocalEc w memory (stack address) address ec
  | .osx memory, address, ec => osxQueryLocalEc w memory address ec

/-- `query(handle, address)`. -/
def queryHandle : QueryOs w → Int → BitVec w → Except Exn (BasicRegion w)
  | .windows memory _, handle, address => windowsQuery w memory handle address
  | .windows32 memory _, handle, address => wow64RemoteQuery w memory handle address
  | .osx memory, handle, address => osxQuery w memory handle address

/-- `query(handle, address, ec)`. -/
def queryHandleEc :
    QueryOs w → Int → BitVec w → ErrorCode → Except Exn (BasicRegion w × ErrorCode)
  | .windows memory stack, handle, address, ec =>
      windowsQueryEc w memory (stack address) handle address ec
  | .windows32 memory stack, handle, address, ec =>
      wow64RemoteQueryEc w memory (stack address) handle address ec
  | .osx memory, handle, address, ec => osxQueryEc w memory handle address ec

/-- What a query whose system call fails returns: the default region on macOS,
    and on Windows what `parse_info` makes of the stack. -/
def failedRegion : QueryOs w → BitVec w → Except Exn (BasicRegion w)
  | .windows _ stack, address => parseInfo w (stack address)
  | .windows32 _ stack, address => parseInfo w (stack address)
  | .osx _, _ => .ok {}

/-- A query whose system call fails sets `ec` and returns a region all the same. -/
theorem queryEc_of_systemError (os : QueryOs w) {x : BitVec w} {code : ErrorCode} {what : String}
    (h : os.query x = .error (.systemError code what)) (ec : ErrorCode) :
    os.queryEc x ec = (os.failedRegion x).map (fun region => (region, code)) := by
  cases os with
  | windows memory stack =>
      obtain ⟨addr, value, haddr, hfail, rfl⟩ := windowsQuery_systemError h
      exact windowsQueryEc_of_error haddr hfail (stack x) ec
  | windows32 memory stack =>
      obtain ⟨addr, value, haddr, hfail, rfl⟩ := windowsQuery_systemError h
      exact windowsQueryEc_of_error haddr hfail (stack x) ec
  | osx memory =>
      obtain ⟨addr, kr, haddr, hfail, rfl⟩ := osxQuery_systemError h
      exact osxQueryEc_of_error haddr hfail ec

end QueryOs

/-! ## The loop -/

/-- The loop of `query_range` with `ec`.  Out of fuel is `none`. -/
def usingQueryLoopEc (queryEc : BitVec w → ErrorCode → Except Exn (BasicRegion w × ErrorCode))
    (checkedEnd : BitVec w) : Nat → BitVec w → ErrorCode → List (BasicRegion w) →
    Option (Except Exn (List (BasicRegion w) × ErrorCode))
  | 0, _, _, _ => none
  | fuel + 1, checkedBegin, ec, regions =>
      if checkedBegin < checkedEnd then
        match queryEc checkedBegin ec with
        | .error e => some (.error e)
        | .ok (region, ec) =>
            -- the region is in the vector before `ec` is read
            if ec.isSet then some (.ok (regions ++ [region], ec))
            else usingQueryLoopEc queryEc checkedEnd fuel region.end ec (regions ++ [region])
      else some (.ok (regions, ec))

/-- `query_range(begin, end, ec)` and `query_range(handle, begin, end, ec)`, which
    differ in the query they call. -/
def queryRangeUsingQueryEc
    (queryEc : BitVec w → ErrorCode → Except Exn (BasicRegion w × ErrorCode)) (fuel : Nat)
    (first last : BitVec a) (ec : ErrorCode) :
    Option (Except Exn (List (BasicRegion w) × ErrorCode)) :=
  match addressCast w first, addressCast w last with
  | .ok checkedBegin, .ok checkedEnd =>
      usingQueryLoopEc queryEc checkedEnd fuel checkedBegin ec []
  | .error e, _ => some (.error e)
  | .ok _, .error e => some (.error e)

/-- `query_range(begin, end)`. -/
def QueryOs.queryRange (os : QueryOs w) (fuel : Nat) (first last : BitVec a) :
    Option (Except Exn (List (BasicRegion w))) :=
  queryRangeUsingQuery os.query fuel first last

/-- `query_range(begin, end, ec)`. -/
def QueryOs.queryRangeEc (os : QueryOs w) (fuel : Nat) (first last : BitVec a) (ec : ErrorCode) :
    Option (Except Exn (List (BasicRegion w) × ErrorCode)) :=
  queryRangeUsingQueryEc os.queryEc fuel first last ec

/-- `query_range(handle, begin, end)`. -/
def QueryOs.queryRangeHandle (os : QueryOs w) (handle : Int) (fuel : Nat) (first last : BitVec a) :
    Option (Except Exn (List (BasicRegion w))) :=
  queryRangeUsingQuery (os.queryHandle handle) fuel first last

/-- `query_range(handle, begin, end, ec)`. -/
def QueryOs.queryRangeHandleEc (os : QueryOs w) (handle : Int) (fuel : Nat)
    (first last : BitVec a) (ec : ErrorCode) :
    Option (Except Exn (List (BasicRegion w) × ErrorCode)) :=
  queryRangeUsingQueryEc (os.queryHandleEc handle) fuel first last ec

section

variable {query : BitVec w → Except Exn (BasicRegion w)}
  {queryEc : BitVec w → ErrorCode → Except Exn (BasicRegion w × ErrorCode)} {last : BitVec w}

/-- The query with `ec` succeeds with what the throwing one returns, and leaves
    `ec` alone. -/
def KeepsEc (query : BitVec w → Except Exn (BasicRegion w))
    (queryEc : BitVec w → ErrorCode → Except Exn (BasicRegion w × ErrorCode)) : Prop :=
  ∀ x r ec, query x = .ok r → queryEc x ec = .ok (r, ec)

/-- The loop in front of the end. -/
theorem usingQueryLoopEc_lt {cur : BitVec w} (hlt : cur < last) {ec ec' : ErrorCode}
    {r : BasicRegion w} (hq : queryEc cur ec = .ok (r, ec')) (fuel : Nat)
    (acc : List (BasicRegion w)) :
    usingQueryLoopEc queryEc last (fuel + 1) cur ec acc
      = if ec'.isSet then some (.ok (acc ++ [r], ec'))
        else usingQueryLoopEc queryEc last fuel r.end ec' (acc ++ [r]) := by
  rw [usingQueryLoopEc, if_pos hlt, hq]

/-- **A round of a loop that returns**: the cursor has reached the end, or its
    query is stored, and the loop ends there or goes on behind the answer. -/
theorem usingQueryLoopEc_eq_ok {fuel : Nat} {cur : BitVec w} {ec ec' : ErrorCode}
    {acc regions : List (BasicRegion w)}
    (h : usingQueryLoopEc queryEc last (fuel + 1) cur ec acc = some (.ok (regions, ec'))) :
    (¬ cur < last ∧ regions = acc)
      ∨ ∃ r ec₁, cur < last ∧ queryEc cur ec = .ok (r, ec₁)
        ∧ (regions = acc ++ [r]
          ∨ usingQueryLoopEc queryEc last fuel r.end ec₁ (acc ++ [r])
            = some (.ok (regions, ec'))) := by
  by_cases hlt : cur < last
  · rcases hq : queryEc cur ec with e | ⟨r, ec₁⟩
    · rw [usingQueryLoopEc, if_pos hlt, hq] at h
      cases h
    · rw [usingQueryLoopEc_lt hlt hq] at h
      refine Or.inr ⟨r, ec₁, hlt, rfl, ?_⟩
      by_cases hset : ec₁.isSet = true
      · rw [if_pos hset] at h
        exact Or.inl (Prod.mk.inj (Except.ok.inj (Option.some.inj h))).1.symm
      · rw [if_neg hset] at h
        exact Or.inr h
  · rw [usingQueryLoopEc, if_neg hlt] at h
    exact Or.inl ⟨hlt, (Prod.mk.inj (Except.ok.inj (Option.some.inj h))).1.symm⟩

/-- What was collected stays collected. -/
theorem usingQueryLoopEc_extends {fuel : Nat} {cur : BitVec w} {ec ec' : ErrorCode}
    {acc regions : List (BasicRegion w)}
    (h : usingQueryLoopEc queryEc last fuel cur ec acc = some (.ok (regions, ec'))) :
    acc <+: regions := by
  induction fuel generalizing cur ec acc with
  | zero => exact nomatch h
  | succ fuel ih =>
      rcases usingQueryLoopEc_eq_ok h with ⟨-, rfl⟩ | ⟨r, ec₁, -, -, rfl | hrest⟩
      · exact List.prefix_refl _
      · exact List.prefix_append acc [r]
      · exact List.IsPrefix.trans (List.prefix_append acc [r]) (ih hrest)

/-- **In front of the end the loop stores a region**, whatever its query does. -/
theorem usingQueryLoopEc_length {fuel : Nat} {cur : BitVec w} (hlt : cur < last)
    {ec ec' : ErrorCode} {acc regions : List (BasicRegion w)}
    (h : usingQueryLoopEc queryEc last fuel cur ec acc = some (.ok (regions, ec'))) :
    acc.length < regions.length := by
  cases fuel with
  | zero => exact nomatch h
  | succ fuel =>
      rcases usingQueryLoopEc_eq_ok h with ⟨hstop, -⟩ | ⟨r, ec₁, -, -, hend⟩
      · exact absurd hlt hstop
      · have hkept : acc ++ [r] <+: regions := by
          rcases hend with rfl | hrest
          · exact List.prefix_refl _
          · exact usingQueryLoopEc_extends hrest
        have hlen := hkept.length_le
        rw [List.length_append] at hlen
        exact hlen

/-! ## Two versions of the loop -/

/-- No query that the loop makes fails. -/
def NoQueryFails (query : BitVec w → Except Exn (BasicRegion w)) (first last : BitVec a) : Prop :=
  ∀ checkedBegin checkedEnd, addressCast w first = .ok checkedBegin →
    addressCast w last = .ok checkedEnd →
    ∀ x, Visits query checkedEnd checkedBegin x → x < checkedEnd → ∃ r, query x = .ok r

/-- The loop makes a second query: the region of the first one ends in front of
    the end of the range. -/
def GoesOn (query : BitVec w → Except Exn (BasicRegion w)) (first last : BitVec a) : Prop :=
  ∃ checkedBegin checkedEnd r, addressCast w first = .ok checkedBegin
    ∧ addressCast w last = .ok checkedEnd ∧ checkedBegin < checkedEnd
    ∧ query checkedBegin = .ok r ∧ r.end < checkedEnd

/-- The overload with `ec` ends as the throwing one does: with the same vector,
    with the same exception or not at all. -/
def SameVector (throwing : Nat → Option (Except Exn (List (BasicRegion w))))
    (withEc : Nat → Option (Except Exn (List (BasicRegion w) × ErrorCode))) : Prop :=
  ∀ result, (∃ fuel, throwing fuel = some result)
    ↔ ∃ fuel, (withEc fuel).map (Except.map Prod.fst) = some result

/-- **With a clear `ec` the two loops run in step** as long as no query fails. -/
theorem usingQueryLoopEc_clear (hkeeps : KeepsEc query queryEc) {ec : ErrorCode}
    (hec : ec.isSet = false) {cur : BitVec w}
    (hq : ∀ x, Visits query last cur x → x < last → ∃ r, query x = .ok r) (fuel : Nat)
    (acc : List (BasicRegion w)) :
    usingQueryLoopEc queryEc last fuel cur ec acc
      = (usingQueryLoop query last fuel cur acc).map
          (Except.map (fun regions => (regions, ec))) := by
  induction fuel generalizing cur acc with
  | zero => rfl
  | succ fuel ih =>
      by_cases hlt : cur < last
      · obtain ⟨r, hr⟩ := hq cur ReflTransGen.refl hlt
        have hstep : CursorStep query last cur r.end := ⟨hlt, r, hr, rfl⟩
        have hrest := ih (fun x hx => hq x (ReflTransGen.head hstep hx)) (acc ++ [r])
        rw [usingQueryLoopEc_lt hlt (hkeeps cur r ec hr), if_neg (Bool.eq_false_iff.mp hec), hrest,
          usingQueryLoop, if_pos hlt, hr]
      · rw [usingQueryLoopEc, if_neg hlt, usingQueryLoop, if_neg hlt]
        rfl

/-- With an error in `ec` the loop ends behind its first query. -/
theorem usingQueryLoopEc_stale (hkeeps : KeepsEc query queryEc) {ec : ErrorCode}
    (hec : ec.isSet = true) {cur : BitVec w} (hlt : cur < last) {r : BasicRegion w}
    (hr : query cur = .ok r) (fuel : Nat) (acc : List (BasicRegion w)) :
    usingQueryLoopEc queryEc last (fuel + 1) cur ec acc = some (.ok (acc ++ [r], ec)) := by
  rw [usingQueryLoopEc_lt hlt (hkeeps cur r ec hr), if_pos hec]

/-- A loop that is at the end behind its first query. -/
theorem usingQueryLoop_single {cur : BitVec w} (hlt : cur < last) {r : BasicRegion w}
    (hr : query cur = .ok r) (hstop : ¬ r.end < last) (fuel : Nat) (acc : List (BasicRegion w)) :
    usingQueryLoop query last (fuel + 2) cur acc = some (.ok (acc ++ [r])) := by
  rw [usingQueryLoop, if_pos hlt, hr]
  show usingQueryLoop query last (fuel + 1) r.end (acc ++ [r]) = _
  rw [usingQueryLoop, if_neg hstop]

/-- In front of the end the throwing loop stores a region as well. -/
theorem usingQueryLoop_length {fuel : Nat} {cur : BitVec w} (hlt : cur < last)
    {acc regions : List (BasicRegion w)}
    (h : usingQueryLoop query last fuel cur acc = some (.ok regions)) :
    acc.length < regions.length := by
  cases fuel with
  | zero => exact nomatch h
  | succ fuel =>
      rcases usingQueryLoop_eq_ok h with ⟨hstop, -⟩ | ⟨r, -, -, hrest⟩
      · exact absurd hlt hstop
      · have hlen := (usingQueryLoop_extends hrest).length_le
        rw [List.length_append] at hlen
        exact hlen

/-- A loop that makes a second query does not end with the first region. -/
theorem usingQueryLoop_ne_single {cur : BitVec w} (hlt : cur < last) {r : BasicRegion w}
    (hr : query cur = .ok r) (hgoes : r.end < last) (fuel : Nat) :
    usingQueryLoop query last fuel cur [] ≠ some (.ok [r]) := by
  intro h
  cases fuel with
  | zero => exact nomatch h
  | succ fuel =>
      rcases usingQueryLoop_eq_ok h with ⟨hstop, -⟩ | ⟨r₁, -, hr₁, hrest⟩
      · exact hstop hlt
      · obtain rfl : r = r₁ := Except.ok.inj (hr.symm.trans hr₁)
        exact absurd (usingQueryLoop_length hgoes hrest) (Nat.lt_irrefl 1)

/-- Loops that run in step end with the same vector. -/
theorem SameVector.of_map {throwing : Nat → Option (Except Exn (List (BasicRegion w)))}
    {withEc : Nat → Option (Except Exn (List (BasicRegion w) × ErrorCode))}
    (h : ∀ fuel, (withEc fuel).map (Except.map Prod.fst) = throwing fuel) :
    SameVector throwing withEc := by
  intro result
  constructor
  · rintro ⟨fuel, hfuel⟩
    exact ⟨fuel, (h fuel).trans hfuel⟩
  · rintro ⟨fuel, hfuel⟩
    exact ⟨fuel, (h fuel).symm.trans hfuel⟩

/-- With an error in `ec` the vectors are the same if one query is enough. -/
theorem usingQueryLoop_sameVector_single (hkeeps : KeepsEc query queryEc) {ec : ErrorCode}
    (hec : ec.isSet = true) {cur : BitVec w} (hlt : cur < last) {r : BasicRegion w}
    (hr : query cur = .ok r) (hstop : ¬ r.end < last) :
    SameVector (fun fuel => usingQueryLoop query last fuel cur [])
      (fun fuel => usingQueryLoopEc queryEc last fuel cur ec []) := by
  have hthrowing := fun fuel => usingQueryLoop_single hlt hr hstop fuel []
  have hwithEc := fun fuel => usingQueryLoopEc_stale hkeeps hec hlt hr fuel []
  intro result
  constructor
  · rintro ⟨fuel, hfuel⟩
    have hres : result = .ok [r] := by
      rcases fuel with _ | _ | fuel
      · cases hfuel
      · have hnone : usingQueryLoop query last 1 cur [] = none := by
          rw [usingQueryLoop, if_pos hlt, hr]
          rfl
        cases hnone.symm.trans hfuel
      · exact (Option.some.inj ((hthrowing fuel).symm.trans hfuel)).symm
    rw [hres]
    exact ⟨1, congrArg (Option.map _) (hwithEc 0)⟩
  · rintro ⟨fuel, hfuel⟩
    cases fuel with
    | zero => cases hfuel
    | succ fuel =>
        have hmap := congrArg (Option.map (Except.map Prod.fst)) (hwithEc fuel)
        obtain rfl := Option.some.inj (hmap.symm.trans hfuel)
        exact ⟨2, hthrowing 0⟩

/-- The vectors of the two loops, in terms of their first query. -/
theorem usingQueryLoop_sameVector_iff (hkeeps : KeepsEc query queryEc) {cur : BitVec w}
    (hq : ∀ x, Visits query last cur x → x < last → ∃ r, query x = .ok r) (ec : ErrorCode) :
    SameVector (fun fuel => usingQueryLoop query last fuel cur [])
        (fun fuel => usingQueryLoopEc queryEc last fuel cur ec [])
      ↔ ec.isSet = false ∨ ¬ (cur < last ∧ ∃ r, query cur = .ok r ∧ r.end < last) := by
  constructor
  · intro hsame
    by_cases hec : ec.isSet = false
    · exact Or.inl hec
    · refine Or.inr ?_
      rintro ⟨hlt, r, hr, hgoes⟩
      have hstale := usingQueryLoopEc_stale hkeeps (Bool.eq_true_of_not_eq_false hec) hlt hr 0 []
      obtain ⟨fuel, hfuel⟩ := (hsame (.ok [r])).mpr ⟨1, congrArg (Option.map _) hstale⟩
      exact usingQueryLoop_ne_single hlt hr hgoes fuel hfuel
  · intro hcond
    by_cases hec : ec.isSet = false
    · refine SameVector.of_map fun fuel => ?_
      rw [usingQueryLoopEc_clear hkeeps hec hq]
      rcases usingQueryLoop query last fuel cur [] with _ | e | regions <;> rfl
    · have hec : ec.isSet = true := Bool.eq_true_of_not_eq_false hec
      by_cases hlt : cur < last
      · -- one query, and the loop is at the end
        obtain ⟨r, hr⟩ := hq cur ReflTransGen.refl hlt
        have hstop : ¬ r.end < last := fun hgoes =>
          hcond.elim (fun h => absurd (h.symm.trans hec) Bool.false_ne_true)
            (fun h => h ⟨hlt, r, hr, hgoes⟩)
        exact usingQueryLoop_sameVector_single hkeeps hec hlt hr hstop
      · refine SameVector.of_map fun fuel => ?_
        cases fuel with
        | zero => rfl
        | succ fuel =>
            rw [usingQueryLoopEc, if_neg hlt, usingQueryLoop, if_neg hlt]
            rfl

/-- The vectors of the two overloads. -/
theorem queryRangeUsingQuery_sameVector_iff (hkeeps : KeepsEc query queryEc)
    {first last : BitVec a} (hq : NoQueryFails query first last) (ec : ErrorCode) :
    SameVector (fun fuel => queryRangeUsingQuery query fuel first last)
        (fun fuel => queryRangeUsingQueryEc queryEc fuel first last ec)
      ↔ ec.isSet = false ∨ ¬ GoesOn query first last := by
  rcases hfirst : addressCast w first with e | checkedBegin
  · refine iff_of_true (SameVector.of_map fun fuel => ?_) (Or.inr ?_)
    · rw [queryRangeUsingQueryEc, queryRangeUsingQuery, hfirst]
      rfl
    · rintro ⟨cb, ce, r, hcb, -⟩
      cases hcb.symm.trans hfirst
  rcases hlast : addressCast w last with e | checkedEnd
  · refine iff_of_true (SameVector.of_map fun fuel => ?_) (Or.inr ?_)
    · rw [queryRangeUsingQueryEc, queryRangeUsingQuery, hfirst, hlast]
      rfl
    · rintro ⟨cb, ce, r, -, hce, -⟩
      cases hce.symm.trans hlast
  have hgoes : GoesOn query first last
      ↔ checkedBegin < checkedEnd ∧ ∃ r, query checkedBegin = .ok r ∧ r.end < checkedEnd := by
    constructor
    · rintro ⟨cb, ce, r, hcb, hce, hlt, hr, hend⟩
      obtain rfl := Except.ok.inj (hcb.symm.trans hfirst)
      obtain rfl := Except.ok.inj (hce.symm.trans hlast)
      exact ⟨hlt, r, hr, hend⟩
    · rintro ⟨hlt, r, hr, hend⟩
      exact ⟨checkedBegin, checkedEnd, r, hfirst, hlast, hlt, hr, hend⟩
  have hloop := usingQueryLoop_sameVector_iff hkeeps (hq checkedBegin checkedEnd hfirst hlast) ec
  rw [hgoes, ← hloop]
  simp only [queryRangeUsingQuery, queryRangeUsingQueryEc, hfirst, hlast]

/-! ## A query that fails -/

/-- From the cursor `x` the loop collects `regions`, and then it stands at `y`. -/
inductive Collects (query : BitVec w → Except Exn (BasicRegion w)) (last : BitVec w) :
    BitVec w → List (BasicRegion w) → BitVec w → Prop
  | nil (x : BitVec w) : Collects query last x [] x
  | cons {x y : BitVec w} {r : BasicRegion w} {regions : List (BasicRegion w)} (hlt : x < last)
      (hr : query x = .ok r) (hrest : Collects query last r.end regions y) :
      Collects query last x (r :: regions) y

/-- One round with a clear `ec`. -/
theorem usingQueryLoopEc_step (hkeeps : KeepsEc query queryEc) {ec : ErrorCode}
    (hec : ec.isSet = false) {x : BitVec w} (hlt : x < last) {r : BasicRegion w}
    (hr : query x = .ok r) (acc : List (BasicRegion w))
    (out : Except Exn (List (BasicRegion w) × ErrorCode)) :
    (∃ fuel, usingQueryLoopEc queryEc last fuel x ec acc = some out)
      ↔ ∃ fuel, usingQueryLoopEc queryEc last fuel r.end ec (acc ++ [r]) = some out := by
  have hround : ∀ fuel, usingQueryLoopEc queryEc last (fuel + 1) x ec acc
      = usingQueryLoopEc queryEc last fuel r.end ec (acc ++ [r]) := by
    intro fuel
    rw [usingQueryLoopEc_lt hlt (hkeeps x r ec hr), if_neg (Bool.eq_false_iff.mp hec)]
  constructor
  · rintro ⟨fuel, h⟩
    cases fuel with
    | zero => exact nomatch h
    | succ fuel => exact ⟨fuel, (hround fuel).symm.trans h⟩
  · rintro ⟨fuel, h⟩
    exact ⟨fuel + 1, (hround fuel).trans h⟩

/-- The rounds in front of the query that fails. -/
theorem usingQueryLoopEc_collects (hkeeps : KeepsEc query queryEc) {ec : ErrorCode}
    (hec : ec.isSet = false) {x y : BitVec w} {regions : List (BasicRegion w)}
    (h : Collects query last x regions y) (acc : List (BasicRegion w))
    (out : Except Exn (List (BasicRegion w) × ErrorCode)) :
    (∃ fuel, usingQueryLoopEc queryEc last fuel x ec acc = some out)
      ↔ ∃ fuel, usingQueryLoopEc queryEc last fuel y ec (acc ++ regions) = some out := by
  induction h generalizing acc with
  | nil x => rw [List.append_nil]
  | cons hlt hr _ ih =>
      rw [usingQueryLoopEc_step hkeeps hec hlt hr, ih, List.append_assoc, List.singleton_append]

/-- A loop that is in front of the end with `regions` does not return them. -/
theorem usingQueryLoopEc_not_collected (hkeeps : KeepsEc query queryEc) {ec : ErrorCode}
    (hec : ec.isSet = false) {x y : BitVec w} {regions : List (BasicRegion w)}
    (h : Collects query last x regions y) (hlt : y < last) :
    ¬ ∃ fuel ec', usingQueryLoopEc queryEc last fuel x ec [] = some (.ok (regions, ec')) := by
  rintro ⟨fuel, ec', hrun⟩
  obtain ⟨fuel', hrest⟩ := (usingQueryLoopEc_collects hkeeps hec h [] _).mp ⟨fuel, hrun⟩
  exact absurd (usingQueryLoopEc_length hlt hrest) (Nat.lt_irrefl _)

/-- The loop from the query that fails. -/
theorem usingQueryLoopEc_failed {y : BitVec w} (hlt : y < last) {ec code : ErrorCode}
    (hcode : code.isSet = true) {failed : Except Exn (BasicRegion w)}
    (hfail : queryEc y ec = failed.map (fun region => (region, code)))
    (acc : List (BasicRegion w)) :
    usingQueryLoopEc queryEc last 1 y ec acc
      = some (failed.map (fun region => (acc ++ [region], code))) := by
  cases failed with
  | error e =>
      rw [usingQueryLoopEc, if_pos hlt, hfail]
      rfl
  | ok r =>
      rw [usingQueryLoopEc_lt hlt hfail, if_pos hcode]
      rfl

end

/-- A query that succeeds does so with `ec`, and leaves it alone. -/
theorem QueryOs.keepsEc (os : QueryOs w) : KeepsEc os.query os.queryEc := by
  intro x r ec h
  cases os with
  | windows memory stack => exact windowsQueryEc_of_ok h (stack x) ec
  | windows32 memory stack => exact windowsQueryEc_of_ok h (stack x) ec
  | osx memory => exact osxQueryEc_of_ok h ec

/-- So does a query of another process. -/
theorem QueryOs.keepsEc_handle (os : QueryOs w) (handle : Int) :
    KeepsEc (os.queryHandle handle) (os.queryHandleEc handle) := by
  intro x r ec h
  cases os with
  | windows memory stack => exact windowsQueryEc_of_ok h (stack x) ec
  | windows32 memory stack => exact wow64RemoteQueryEc_of_ok h (stack x) ec
  | osx memory => exact osxQueryEc_of_ok h ec

/-- **The overloads with `ec` return the vector of the throwing ones** exactly if
    `ec` comes in clear or one query is enough, in both processes. -/
theorem queryRangeEc_sameVector_iff (os : QueryOs w) (handle : Int) (first last : BitVec a)
    (ec : ErrorCode) :
    (NoQueryFails os.query first last →
        (SameVector (fun fuel => os.queryRange fuel first last)
            (fun fuel => os.queryRangeEc fuel first last ec)
          ↔ ec.isSet = false ∨ ¬ GoesOn os.query first last))
      ∧ (NoQueryFails (os.queryHandle handle) first last →
        (SameVector (fun fuel => os.queryRangeHandle handle fuel first last)
            (fun fuel => os.queryRangeHandleEc handle fuel first last ec)
          ↔ ec.isSet = false ∨ ¬ GoesOn (os.queryHandle handle) first last)) :=
  ⟨fun hq => queryRangeUsingQuery_sameVector_iff os.keepsEc hq ec,
    fun hq => queryRangeUsingQuery_sameVector_iff (os.keepsEc_handle handle) hq ec⟩

/-- A process with two regions that cover the first four pages; behind them
    `VirtualQueryEx` fails. -/
def sampleWindows : WindowsMemory where
  virtualQueryEx _ x :=
    if x < 0x2000 then .ok ⟨0, 0x2000, 0x1000, 0x04, memPrivate⟩
    else if x < 0x4000 then .ok ⟨0x2000, 0x2000, 0x1000, 0x02, memPrivate⟩
    else .error 87
  getCurrentProcess := -1

/-- The sample process, with a stack that holds an old answer. -/
def sampleOs : QueryOs 64 :=
  .windows sampleWindows (fun _ => ⟨0x7f0000, 0x1000, 0x1000, 0x04, memPrivate⟩)

/-- The two regions of the sample process, as `query` reports them. -/
def sampleRegions : List (BasicRegion 64) :=
  [.mapped 0 0x2000 ⟨0x04⟩ false, .mapped 0x2000 0x4000 ⟨0x02⟩ false]

theorem sampleOs_noQueryFails (handle : Int) :
    NoQueryFails (sampleOs.queryHandle handle) (0x1000 : BitVec 64) 0x3000 := by
  intro checkedBegin checkedEnd _ hlast x _ hx
  obtain rfl := Except.ok.inj ((addressCast_self (0x3000 : BitVec 64)).symm.trans hlast)
  obtain ⟨info, hinfo⟩ : ∃ info, sampleWindows.virtualQueryEx handle x = .ok info := by
    by_cases hlt : x < 0x2000
    · exact ⟨_, if_pos hlt⟩
    · exact ⟨_, (if_neg hlt).trans (if_pos (Nat.lt_trans hx (by decide)))⟩
  obtain ⟨r, hr, -⟩ := parseInfo_64 info
  exact ⟨r, (windowsQuery_of_info hinfo).trans hr⟩

theorem queryRangeEc_sameVector_iff_sample :
    (SameVector (fun fuel => sampleOs.queryRange fuel (0x1000 : BitVec 64) 0x3000)
          (fun fuel => sampleOs.queryRangeEc fuel (0x1000 : BitVec 64) 0x3000 {})
        ↔ ({} : ErrorCode).isSet = false ∨ ¬ GoesOn sampleOs.query (0x1000 : BitVec 64) 0x3000)
      ∧ (SameVector (fun fuel => sampleOs.queryRangeHandle 8 fuel (0x1000 : BitVec 64) 0x3000)
          (fun fuel => sampleOs.queryRangeHandleEc 8 fuel (0x1000 : BitVec 64) 0x3000 {})
        ↔ ({} : ErrorCode).isSet = false
          ∨ ¬ GoesOn (sampleOs.queryHandle 8) (0x1000 : BitVec 64) 0x3000) :=
  ⟨(queryRangeEc_sameVector_iff sampleOs 8 (0x1000 : BitVec 64) 0x3000 {}).1
      (sampleOs_noQueryFails (-1)),
    (queryRangeEc_sameVector_iff sampleOs 8 (0x1000 : BitVec 64) 0x3000 {}).2
      (sampleOs_noQueryFails 8)⟩

/-- With an old error in `ec` the second region of the range is missing. -/
theorem queryRangeEc_sample_stale :
    NoQueryFails sampleOs.query (0x1000 : BitVec 64) 0x3000
      ∧ ¬ SameVector (fun fuel => sampleOs.queryRange fuel (0x1000 : BitVec 64) 0x3000)
        (fun fuel => sampleOs.queryRangeEc fuel (0x1000 : BitVec 64) 0x3000 { value := 5 }) := by
  have hq : NoQueryFails sampleOs.query (0x1000 : BitVec 64) 0x3000 := sampleOs_noQueryFails (-1)
  have hgoes : GoesOn sampleOs.query (0x1000 : BitVec 64) 0x3000 :=
    ⟨0x1000, 0x3000, .mapped 0 0x2000 ⟨0x04⟩ false, rfl, rfl, by decide, rfl, by decide⟩
  refine ⟨hq, fun hsame => ?_⟩
  rcases (queryRangeUsingQuery_sameVector_iff sampleOs.keepsEc hq { value := 5 }).mp hsame with
    hclear | hstop
  · exact absurd hclear (by decide)
  · exact hstop hgoes

/-- `query_range(begin, end, ec)` with clear `ec` and a query that fails: the
    vector is never that of the regions collected before.  Behind them it holds
    what the failing query returned. -/
theorem queryRangeEc_keeps_failed (os : QueryOs w) (first last : BitVec a)
    (checkedBegin checkedEnd : BitVec w) (hfirst : addressCast w first = .ok checkedBegin)
    (hlast : addressCast w last = .ok checkedEnd) (regions : List (BasicRegion w)) (y : BitVec w)
    (hcollects : Collects os.query checkedEnd checkedBegin regions y) (hlt : y < checkedEnd)
    (e : Exn) (hfail : os.query y = .error e) (ec : ErrorCode) (hec : ec.isSet = false) :
    (¬ ∃ fuel ec', os.queryRangeEc fuel first last ec = some (.ok (regions, ec')))
      ∧ ∀ code what, e = .systemError code what → code.isSet = true →
        ∃ fuel, os.queryRangeEc fuel first last ec
          = some ((os.failedRegion y).map (fun region => (regions ++ [region], code))) := by
  have hunfold : ∀ fuel, os.queryRangeEc fuel first last ec
      = usingQueryLoopEc os.queryEc checkedEnd fuel checkedBegin ec [] := by
    intro fuel
    rw [QueryOs.queryRangeEc, queryRangeUsingQueryEc, hfirst, hlast]
  constructor
  · simp only [hunfold]
    exact usingQueryLoopEc_not_collected os.keepsEc hec hcollects hlt
  · rintro code what rfl hcode
    have hfailed := os.queryEc_of_systemError hfail ec
    obtain ⟨fuel, h⟩ := (usingQueryLoopEc_collects os.keepsEc hec hcollects [] _).mpr
      ⟨1, usingQueryLoopEc_failed hlt hcode hfailed regions⟩
    exact ⟨fuel, (hunfold fuel).trans h⟩

theorem sampleOs_collects :
    Collects sampleOs.query 0x5000 0x1000 sampleRegions 0x4001 :=
  .cons (by decide) rfl (.cons (by decide) rfl (.nil _))

theorem queryRangeEc_keeps_failed_sample :
    (¬ ∃ fuel ec', sampleOs.queryRangeEc fuel (0x1000 : BitVec 64) 0x5000 {}
        = some (.ok (sampleRegions, ec')))
      ∧ ∃ fuel, sampleOs.queryRangeEc fuel (0x1000 : BitVec 64) 0x5000 {}
        = some ((sampleOs.failedRegion 0x4001).map
          (fun region => (sampleRegions ++ [region], { value := 87 }))) := by
  have hfailed := queryRangeEc_keeps_failed sampleOs (0x1000 : BitVec 64) 0x5000 0x1000 0x5000 rfl
    rfl sampleRegions 0x4001 sampleOs_collects (by decide) _ rfl {} rfl
  exact ⟨hfailed.1, hfailed.2 _ _ rfl rfl⟩

/-- The third query of the sample process fails, and the old answer on the stack
    becomes the third region. -/
theorem queryRangeEc_sample_failed :
    Collects sampleOs.query 0x5000 0x1000 sampleRegions 0x4001
      ∧ sampleOs.query 0x4001 = .error (.systemError { value := 87 } "VirtualQueryEx() failed")
      ∧ (¬ ∃ fuel ec', sampleOs.queryRangeEc fuel (0x1000 : BitVec 64) 0x5000 {}
        = some (.ok (sampleRegions, ec')))
      ∧ sampleOs.queryRangeEc 3 (0x1000 : BitVec 64) 0x5000 {}
        = some (.ok (sampleRegions ++ [.mapped 0x7f0000 0x7f1000 ⟨0x04⟩ false],
            { value := 87 })) := by
  refine ⟨sampleOs_collects, rfl, ?_, rfl⟩
  exact usingQueryLoopEc_not_collected sampleOs.keepsEc rfl sampleOs_collects (by decide)

end VmUtils
