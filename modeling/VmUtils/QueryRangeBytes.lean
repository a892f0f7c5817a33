import VmUtils.Wow64QueryRange
import VmUtils.WindowsQueryBytes

/-! # Another process on 32-bit Windows, on bytes

    `query_range(handle, begin, end)` and its overload with `ec` with the casts of
    their queries as the copies they are.  The first query of an address below the
    last 32-bit one copies eight bytes into a pointer of four, and no later round
    writes back what was behind it (`wow64QueryRangeIn_leaves`).  So the calls stay
    inside the objects of their casts only for ranges that are empty or begin behind
    those addresses.  The numbers are those of the loop on 32-bit addresses all the
    same (`wow64QueryRangeIn_spec`, `wow64QueryRangeEcIn_spec`). -/

namespace VmUtils

open ByteMemory StoreEffects

variable {dst src : AddressSize} {w : Nat}

/-! ## The loops -/

/-- How a loop with fuel ends: to be out of fuel is a value. -/
def fuelOutcome {α : Type} : Option (Except Exn α) → Except Exn (Option α)
  | none => .ok none
  | some result => result.map some

/-- The loop of `query_range`. -/
def usingQueryLoopIn (query : BitVec w → OsM Memory (BasicRegion w)) (checkedEnd : BitVec w) :
    Nat → BitVec w → List (BasicRegion w) → OsM Memory (Option (List (BasicRegion w)))
  | 0, _, _ => return none
  | fuel + 1, checkedBegin, regions =>
      if checkedBegin < checkedEnd then do
        let region ← query checkedBegin
        usingQueryLoopIn query checkedEnd fuel region.end (regions ++ [region])
      else return some regions

/-- The loop of `query_range` with `ec`. -/
def usingQueryLoopEcIn
    (queryEc : BitVec w → ErrorCode → OsM Memory (BasicRegion w × ErrorCode))
    (checkedEnd : BitVec w) : Nat → BitVec w → ErrorCode → List (BasicRegion w) →
    OsM Memory (Option (List (BasicRegion w) × ErrorCode))
  | 0, _, _, _ => return none
  | fuel + 1, checkedBegin, ec, regions =>
      if checkedBegin < checkedEnd then do
        let (region, ec) ← queryEc checkedBegin ec
        -- the region of a failed query is in the vector
        if ec.isSet then return some (regions ++ [region], ec)
        else usingQueryLoopEcIn queryEc checkedEnd fuel region.end ec (regions ++ [region])
      else return some (regions, ec)

section

variable {query : BitVec w → Except Exn (BasicRegion w)}
  {queryIn : BitVec w → OsM Memory (BasicRegion w)}
  {queryEc : BitVec w → ErrorCode → Except Exn (BasicRegion w × ErrorCode)}
  {queryEcIn : BitVec w → ErrorCode → OsM Memory (BasicRegion w × ErrorCode)}

/-- **Refinement of the loop**, if the queries refine those on numbers. -/
theorem usingQueryLoopIn_yields (h : ∀ x, Yields (queryIn x) (query x)) (last : BitVec w)
    (fuel : Nat) (cur : BitVec w) (acc : List (BasicRegion w)) :
    Yields (usingQueryLoopIn queryIn last fuel cur acc)
      (fuelOutcome (usingQueryLoop query last fuel cur acc)) := by
  induction fuel generalizing cur acc with
  | zero => exact yields_pure _
  | succ fuel ih =>
      rw [usingQueryLoopIn, usingQueryLoop]
      by_cases hlt : cur < last
      · rw [if_pos hlt, if_pos hlt]
        have hround := (h cur).bind (fun region _ => ih region.end (acc ++ [region]))
        cases hq : query cur with
        | error e =>
            rw [hq] at hround
            exact hround
        | ok region =>
            rw [hq] at hround
            exact hround
      · rw [if_neg hlt, if_neg hlt]
        exact yields_pure _

theorem usingQueryLoopEcIn_yields (h : ∀ x ec, Yields (queryEcIn x ec) (queryEc x ec))
    (last : BitVec w) (fuel : Nat) (cur : BitVec w) (ec : ErrorCode)
    (acc : List (BasicRegion w)) :
    Yields (usingQueryLoopEcIn queryEcIn last fuel cur ec acc)
      (fuelOutcome (usingQueryLoopEc queryEc last fuel cur ec acc)) := by
  induction fuel generalizing cur ec acc with
  | zero => exact yields_pure _
  | succ fuel ih =>
      rw [usingQueryLoopEcIn, usingQueryLoopEc]
      by_cases hlt : cur < last
      · rw [if_pos hlt, if_pos hlt]
        have hquery := h cur ec
        cases hq : queryEc cur ec with
        | error e =>
            rw [hq] at hquery
            -- no second part is reached, so any outcome stands for it
            exact hquery.bind (g := fun _ => .ok none) (fun _ herr => by cases herr)
        | ok answer =>
            obtain ⟨region, ec'⟩ := answer
            rw [hq] at hquery
            refine hquery.bind (g := fun _ => fuelOutcome (if ec'.isSet then
              some (.ok (acc ++ [region], ec'))
              else usingQueryLoopEc queryEc last fuel region.end ec' (acc ++ [region]))) ?_
            intro answer hanswer
            obtain rfl := Except.ok.inj hanswer
            dsimp only
            by_cases hset : ec'.isSet = true
            · rw [if_pos hset, if_pos hset]
              exact yields_pure _
            · rw [if_neg hset, if_neg hset]
              exact ih region.end ec' (acc ++ [region])
      · rw [if_neg hlt, if_neg hlt]
        exact yields_pure _

variable {i : Nat} {b : BitVec 8}

/-- A byte that the queries keep, the loop keeps. -/
theorem usingQueryLoopIn_keeps (h : ∀ x, Keeps i b (queryIn x)) (last : BitVec w) (fuel : Nat)
    (cur : BitVec w) (acc : List (BasicRegion w)) :
    Keeps i b (usingQueryLoopIn queryIn last fuel cur acc) := by
  induction fuel generalizing cur acc with
  | zero => exact keeps_pure _
  | succ fuel ih =>
      rw [usingQueryLoopIn]
      by_cases hlt : cur < last
      · rw [if_pos hlt]
        exact (h cur).bind (fun region => ih region.end (acc ++ [region]))
      · rw [if_neg hlt]
        exact keeps_pure _

theorem usingQueryLoopEcIn_keeps (h : ∀ x ec, Keeps i b (queryEcIn x ec)) (last : BitVec w)
    (fuel : Nat) (cur : BitVec w) (ec : ErrorCode) (acc : List (BasicRegion w)) :
    Keeps i b (usingQueryLoopEcIn queryEcIn last fuel cur ec acc) := by
  induction fuel generalizing cur ec acc with
  | zero => exact keeps_pure _
  | succ fuel ih =>
      rw [usingQueryLoopEcIn]
      by_cases hlt : cur < last
      · rw [if_pos hlt]
        refine (h cur ec).bind (fun ⟨region, ec'⟩ => ?_)
        dsimp only
        by_cases hset : ec'.isSet = true
        · rw [if_pos hset]
          exact keeps_pure _
        · rw [if_neg hset]
          exact ih region.end ec' (acc ++ [region])
      · rw [if_neg hlt]
        exact keeps_pure _

end

/-! ## `query_range` -/

/-- Where the casts of `query_range` and of its queries have their objects. -/
structure QueryRangeFrames (dst src : AddressSize) where
  first : CastFrames dst src
  last : CastFrames dst src
  query : Wow64QueryFrames dst dst

def QueryRangeFrames.Covers (F : QueryRangeFrames dst src) (c : Nat) : Prop :=
  F.first.Covers c ∨ F.last.Covers c ∨ F.query.Covers c

instance (F : QueryRangeFrames dst src) (c : Nat) : Decidable (F.Covers c) :=
  inferInstanceAs (Decidable (_ ∨ _))

/-- `query_range(handle, begin, end)`. -/
def wow64QueryRangeIn (F : QueryRangeFrames dst src) (os : WindowsMemory 32) (handle : Int)
    (fuel : Nat) (first last : BitVec src.bits) :
    OsM Memory (Option (List (BasicRegion dst.bits))) := do
  let checkedBegin ← addressCastIn F.first first
  let checkedEnd ← addressCastIn F.last last
  usingQueryLoopIn (wow64RemoteQueryIn F.query os handle) checkedEnd fuel checkedBegin []

/-- `query_range(handle, begin, end, ec)`.  When a query of `x` begins the stack
    holds `stack x` at `info`. -/
def wow64QueryRangeEcIn (F : QueryRangeFrames dst src) (os : WindowsMemory 32)
    (stack : BitVec dst.bits → MemoryBasicInformation 32) (handle : Int) (fuel : Nat)
    (first last : BitVec src.bits) (ec : ErrorCode) :
    OsM Memory (Option (List (BasicRegion dst.bits) × ErrorCode)) := do
  let checkedBegin ← addressCastIn F.first first
  let checkedEnd ← addressCastIn F.last last
  usingQueryLoopEcIn (fun x => wow64RemoteQueryEcIn F.query os (stack x) handle x) checkedEnd fuel
    checkedBegin ec []

/-- The casts of the ends in front of the loop. -/
theorem fuelOutcome_queryRange {a : Nat} (query : BitVec w → Except Exn (BasicRegion w))
    (fuel : Nat) (first last : BitVec a) :
    fuelOutcome (queryRangeUsingQuery query fuel first last) = (do
      let checkedBegin ← addressCast w first
      let checkedEnd ← addressCast w last
      fuelOutcome (usingQueryLoop query checkedEnd fuel checkedBegin [])) := by
  rw [queryRangeUsingQuery]
  cases addressCast w first with
  | error e => rfl
  | ok checkedBegin => cases addressCast w last <;> rfl

theorem fuelOutcome_queryRangeEc {a : Nat}
    (queryEc : BitVec w → ErrorCode → Except Exn (BasicRegion w × ErrorCode)) (fuel : Nat)
    (first last : BitVec a) (ec : ErrorCode) :
    fuelOutcome (queryRangeUsingQueryEc queryEc fuel first last ec) = (do
      let checkedBegin ← addressCast w first
      let checkedEnd ← addressCast w last
      fuelOutcome (usingQueryLoopEc queryEc checkedEnd fuel checkedBegin ec [])) := by
  rw [queryRangeUsingQueryEc]
  cases addressCast w first with
  | error e => rfl
  | ok checkedBegin => cases addressCast w last <;> rfl

/-- **Refinement.**  `query_range` on bytes ends as on numbers. -/
theorem wow64QueryRangeIn_yields (F : QueryRangeFrames dst src) (os : WindowsMemory 32)
    (handle : Int) (fuel : Nat) (first last : BitVec src.bits) :
    Yields (wow64QueryRangeIn F os handle fuel first last)
      (fuelOutcome
        (queryRangeUsingQuery (wow64RemoteQuery dst.bits os handle) fuel first last)) := by
  rw [fuelOutcome_queryRange]
  exact (addressCastIn_yields F.first first).bind (fun checkedBegin _ =>
    (addressCastIn_yields F.last last).bind (fun checkedEnd _ =>
      usingQueryLoopIn_yields (wow64RemoteQueryIn_yields F.query os handle) checkedEnd fuel
        checkedBegin []))

theorem wow64QueryRangeEcIn_yields (F : QueryRangeFrames dst src) (os : WindowsMemory 32)
    (stack : BitVec dst.bits → MemoryBasicInformation 32) (handle : Int) (fuel : Nat)
    (first last : BitVec src.bits) (ec : ErrorCode) :
    Yields (wow64QueryRangeEcIn F os stack handle fuel first last ec)
      (fuelOutcome (queryRangeUsingQueryEc
        (fun x => wow64RemoteQueryEc dst.bits os (stack x) handle x) fuel first last ec)) := by
  rw [fuelOutcome_queryRangeEc]
  exact (addressCastIn_yields F.first first).bind (fun checkedBegin _ =>
    (addressCastIn_yields F.last last).bind (fun checkedEnd _ =>
      usingQueryLoopEcIn_yields
        (fun x ec => wow64RemoteQueryEcIn_yields F.query os (stack x) handle x ec) checkedEnd fuel
        checkedBegin ec []))

/-! ## What `query_range` writes -/

section

variable {F : QueryRangeFrames .eight .eight} {os : WindowsMemory 32}
  {stack : BitVec 64 → MemoryBasicInformation 32} {handle : Int} {first last : BitVec 64}

/-- With 64-bit addresses the casts of the ends lead to the loop, and leave what it
    leaves. -/
theorem leaves_afterCasts {α : Type} {loop : BitVec 64 → BitVec 64 → OsM Memory α} {i : Nat}
    {b : BitVec 8} (h : Leaves i b (loop first last)) :
    Leaves i b (do
      let checkedBegin ← addressCastIn F.first first
      let checkedEnd ← addressCastIn F.last last
      loop checkedBegin checkedEnd) :=
  Leaves.after (addressCastIn_self F.first first) (Leaves.after (addressCastIn_self F.last last) h)

/-- They stay inside their objects. -/
theorem writesOnly_afterCasts {α : Type} {loop : BitVec 64 → BitVec 64 → OsM Memory α}
    (h : WritesOnly F.Covers (loop first last)) :
    WritesOnly F.Covers (do
      let checkedBegin ← addressCastIn F.first first
      let checkedEnd ← addressCastIn F.last last
      loop checkedBegin checkedEnd) := by
  have hfirst : WritesOnly F.Covers (addressCastIn F.first first) :=
    (addressCastIn_self_writesOnly F.first first).mono (fun _ hc => Or.inl hc)
  have hlast : WritesOnly F.Covers (addressCastIn F.last last) :=
    (addressCastIn_self_writesOnly F.last last).mono (fun _ hc => Or.inr (Or.inl hc))
  exact hfirst.after (addressCastIn_self F.first first)
    (hlast.after (addressCastIn_self F.last last) h)

/-- No query writes back what is behind the pointer. -/
theorem wow64RemoteQueryIn_keeps (hparse : ¬ F.query.parse.Writes (F.query.pointer.value + 4))
    (haddr : ¬ F.query.address.Covers (F.query.pointer.value + 4)) (x : BitVec 64) :
    Keeps (F.query.pointer.value + 4) 0 (wow64RemoteQueryIn F.query os handle x) := by
  by_cases hx : x < 0xffffffff
  · exact (wow64RemoteQueryIn_leaves F.query hparse os handle hx).keeps
  · exact (wow64RemoteQueryIn_inside F.query os handle (Nat.le_of_not_lt hx)).keeps haddr 0

theorem wow64RemoteQueryEcIn_keeps (hparse : ¬ F.query.parse.Writes (F.query.pointer.value + 4))
    (haddr : ¬ F.query.address.Covers (F.query.pointer.value + 4))
    (info : MemoryBasicInformation 32) (x : BitVec 64) (ec : ErrorCode) :
    Keeps (F.query.pointer.value + 4) 0
      (wow64RemoteQueryEcIn F.query os info handle x ec) := by
  by_cases hx : x < 0xffffffff
  · exact (wow64RemoteQueryEcIn_leaves F.query hparse os info handle hx ec).keeps
  · exact (wow64RemoteQueryEcIn_inside F.query os info handle (Nat.le_of_not_lt hx) ec).keeps
      haddr 0

/-- **The overrun** of the first query is there when `query_range` ends. -/
theorem wow64QueryRangeIn_leaves (hparse : ¬ F.query.parse.Writes (F.query.pointer.value + 4))
    (haddr : ¬ F.query.address.Covers (F.query.pointer.value + 4)) (hlt : first < last)
    (hfirst : first < 0xffffffff) (fuel : Nat) :
    Leaves (F.query.pointer.value + 4) 0
      (wow64QueryRangeIn F os handle (fuel + 1) first last) := by
  refine leaves_afterCasts ?_
  rw [usingQueryLoopIn, if_pos hlt]
  -- the first query leaves the zero, the rounds behind it keep it
  exact (wow64RemoteQueryIn_leaves F.query hparse os handle hfirst).bind (fun region =>
    usingQueryLoopIn_keeps (wow64RemoteQueryIn_keeps hparse haddr) last fuel region.end _)

theorem wow64QueryRangeEcIn_leaves (hparse : ¬ F.query.parse.Writes (F.query.pointer.value + 4))
    (haddr : ¬ F.query.address.Covers (F.query.pointer.value + 4)) (hlt : first < last)
    (hfirst : first < 0xffffffff) (fuel : Nat) (ec : ErrorCode) :
    Leaves (F.query.pointer.value + 4) 0
      (wow64QueryRangeEcIn F os stack handle (fuel + 1) first last ec) := by
  refine leaves_afterCasts ?_
  rw [usingQueryLoopEcIn, if_pos hlt]
  refine (wow64RemoteQueryEcIn_leaves F.query hparse os (stack first) handle hfirst ec).bind
    (fun ⟨region, ec'⟩ => ?_)
  dsimp only
  by_cases hset : ec'.isSet = true
  · rw [if_pos hset]
    exact keeps_pure _
  · rw [if_neg hset]
    exact usingQueryLoopEcIn_keeps (fun x => wow64RemoteQueryEcIn_keeps hparse haddr (stack x) x)
      last fuel region.end ec' _

/-- A range that is empty or begins with the last 32-bit address or behind it has no
    query that gets to the cast. -/
theorem wow64QueryRangeIn_inside (h : ¬ (first < last ∧ first < 0xffffffff)) (fuel : Nat) :
    WritesOnly F.Covers (wow64QueryRangeIn F os handle (fuel + 1) first last) := by
  refine writesOnly_afterCasts ?_
  rw [usingQueryLoopIn]
  by_cases hlt : first < last
  · have hfirst : 0xffffffff ≤ first := Nat.le_of_not_lt (fun hx => h ⟨hlt, hx⟩)
    rw [if_pos hlt]
    have hthrows : Yields (wow64RemoteQueryIn F.query os handle first)
        (wow64RemoteQuery 64 os handle first) :=
      wow64RemoteQueryIn_yields F.query os handle first
    rw [wow64RemoteQuery_of_le hfirst] at hthrows
    -- the first round throws in front of the cast of the pointer
    exact ((wow64RemoteQueryIn_inside F.query os handle hfirst).mono
      (fun _ hc => Or.inr (Or.inr (Or.inl hc)))).of_throws hthrows
  · rw [if_neg hlt]
    exact writesOnly_pure _

theorem wow64QueryRangeEcIn_inside (h : ¬ (first < last ∧ first < 0xffffffff)) (fuel : Nat)
    (ec : ErrorCode) :
    WritesOnly F.Covers (wow64QueryRangeEcIn F os stack handle (fuel + 1) first last ec) := by
  refine writesOnly_afterCasts ?_
  rw [usingQueryLoopEcIn]
  by_cases hlt : first < last
  · have hfirst : 0xffffffff ≤ first := Nat.le_of_not_lt (fun hx => h ⟨hlt, hx⟩)
    rw [if_pos hlt]
    have hthrows : Yields (wow64RemoteQueryEcIn F.query os (stack first) handle first ec)
        (wow64RemoteQueryEc 64 os (stack first) handle first ec) :=
      wow64RemoteQueryEcIn_yields F.query os (stack first) handle first ec
    rw [wow64RemoteQueryEc_of_le hfirst (stack first) ec] at hthrows
    exact ((wow64RemoteQueryEcIn_inside F.query os (stack first) handle hfirst ec).mono
      (fun _ hc => Or.inr (Or.inr (Or.inl hc)))).of_throws hthrows
  · rw [if_neg hlt]
    exact writesOnly_pure _

end

def sampleRangeFrames : QueryRangeFrames .eight .eight where
  first := { check := .starting 0x40, copy := .starting 0x60 }
  last := { check := .starting 0x80, copy := .starting 0xa0 }
  query :=
    { address := { check := .starting 0xc0, copy := .starting 0xe0 }
      pointer := .starting 0
      parse :=
        { base := .starting 0x100, size := .starting 0x120
          bounds :=
            { lower := { check := .starting 0x140, copy := .starting 0x160 }
              upper := { check := .starting 0x180, copy := .starting 0x1a0 } } } }

/-- **`query_range(handle, begin, end)` of 32-bit Windows.**  It stays inside the
    objects of its casts exactly for ranges that are empty or begin behind the 32-bit
    addresses.  Wherever the objects lie, the numbers in front of 2^32 are those of
    the loop on 32-bit addresses, and behind it no vector is returned. -/
theorem wow64QueryRangeIn_spec (os : WindowsMemory 32) (hos : os.PageAligned) (handle : Int)
    (fuel : Nat) (first last : BitVec 64) :
    ((∀ F : QueryRangeFrames .eight .eight,
          WritesOnly F.Covers (wow64QueryRangeIn F os handle (fuel + 1) first last))
        ↔ ¬ (first < last ∧ first < 0xffffffff))
      ∧ ∀ F : QueryRangeFrames .eight .eight, first < last →
        (last ≤ 0xffffffff →
          Yields (wow64QueryRangeIn F os handle fuel first last) (fuelOutcome
            ((queryRangeUsingQuery (windowsQuery 32 os handle) fuel (first.setWidth 32)
              (last.setWidth 32)).map (Except.map (List.map BasicRegion.widen)))))
        ∧ (0xffffffff < last → ∀ m,
          ((wow64QueryRangeIn F os handle fuel first last).run m).1 = .ok none
            ∨ if 0xffffffff ≤ first then
                ((wow64QueryRangeIn F os handle fuel first last).run m).1
                  = .error (.logicError "not implemented")
              else ∃ code, ((wow64QueryRangeIn F os handle fuel first last).run m).1
                = .error (.systemError { value := code } "VirtualQueryEx() failed")) := by
  refine ⟨⟨?_, fun h F => wow64QueryRangeIn_inside h fuel⟩, ?_⟩
  · rintro hall ⟨hlt, hfirst⟩
    have hleaves : Leaves _ 0 (wow64QueryRangeIn sampleRangeFrames os handle (fuel + 1) first last) :=
      wow64QueryRangeIn_leaves (by decide) (by decide) hlt hfirst fuel
    exact hleaves.not_writesOnly 0xFF (by decide) (by decide) (hall sampleRangeFrames)
  · intro F hlt
    obtain ⟨hin, hbeyond⟩ := wow64QueryRange_widened handle hos hlt fuel
    have hyields := wow64QueryRangeIn_yields F os handle fuel first last
    refine ⟨fun hlast => ?_, fun hlast m => ?_⟩
    · rw [← hin hlast]
      exact hyields
    · rw [hyields m]
      cases hrun : queryRangeUsingQuery (wow64RemoteQuery 64 os handle) fuel first last with
      | none => exact Or.inl rfl
      | some result =>
          refine Or.inr ?_
          have hresult := hbeyond hlast result hrun
          by_cases hfirst : 0xffffffff ≤ first
          · rw [if_pos hfirst] at hresult ⊢
            rw [hresult]
            rfl
          · rw [if_neg hfirst] at hresult ⊢
            obtain ⟨code, rfl⟩ := hresult
            exact ⟨code, rfl⟩

/-- A 32-bit process with two regions below the addresses of the system. -/
def sampleWindows32 : WindowsMemory 32 where
  virtualQueryEx _ x :=
    if x < 0x2000 then .ok ⟨0, 0x2000, 0x1000, 0x04, memPrivate⟩
    else if x < 0x80000000 then .ok ⟨0x2000, 0x7fffe000, 0x1000, 0x02, memPrivate⟩
    else .error 87
  getCurrentProcess := -1

theorem sampleWindows32_pageAligned : sampleWindows32.PageAligned := by
  intro handle x info h
  by_cases hlow : x < 0x2000
  · obtain rfl := Except.ok.inj ((if_pos hlow).symm.trans h)
    decide
  · replace h := (if_neg hlow).symm.trans h
    by_cases hhigh : x < 0x80000000
    · obtain rfl := Except.ok.inj ((if_pos hhigh).symm.trans h)
      decide
    · cases (if_neg hhigh).symm.trans h

theorem sampleWindows32_failsWithCode : sampleWindows32.FailsWithCode := by
  intro handle x h
  by_cases hlow : x < 0x2000
  · cases (if_pos hlow).symm.trans h
  · replace h := (if_neg hlow).symm.trans h
    by_cases hhigh : x < 0x80000000
    · cases (if_pos hhigh).symm.trans h
    · cases (if_neg hhigh).symm.trans h

/-- A stack that holds an old answer. -/
def sampleStack32 (_ : BitVec 64) : MemoryBasicInformation 32 :=
  ⟨0x7f0000, 0x1000, 0x1000, 0x04, memPrivate⟩

theorem wow64QueryRangeIn_spec_sample :
    ((∀ F : QueryRangeFrames .eight .eight,
          WritesOnly F.Covers (wow64QueryRangeIn F sampleWindows32 8 3 (0x1000 : BitVec 64) 0x3000))
        ↔ ¬ ((0x1000 : BitVec 64) < 0x3000 ∧ (0x1000 : BitVec 64) < 0xffffffff))
      ∧ Yields (wow64QueryRangeIn sampleRangeFrames sampleWindows32 8 2 (0x1000 : BitVec 64) 0x3000)
          (fuelOutcome ((queryRangeUsingQuery (windowsQuery 32 sampleWindows32 8) 2
            (0x1000 : BitVec 32) 0x3000).map (Except.map (List.map BasicRegion.widen)))) :=
  have h := wow64QueryRangeIn_spec sampleWindows32 sampleWindows32_pageAligned 8 2 0x1000 0x3000
  ⟨h.1, (h.2 sampleRangeFrames (by decide)).1 (by decide)⟩

/-- **With `ec`** the calls stay inside for the same ranges, and return the same numbers
    and the same `ec` in front of 2^32; a range that ends behind it ends the program if
    it begins behind the 32-bit addresses, and otherwise returns only with an error. -/
theorem wow64QueryRangeEcIn_spec (os : WindowsMemory 32)
    (stack : BitVec 64 → MemoryBasicInformation 32) (hos : os.PageAligned)
    (hcode : os.FailsWithCode) (handle : Int) (fuel : Nat) (first last : BitVec 64)
    (ec : ErrorCode) :
    ((∀ F : QueryRangeFrames .eight .eight, WritesOnly F.Covers
          (wow64QueryRangeEcIn F os stack handle (fuel + 1) first last ec))
        ↔ ¬ (first < last ∧ first < 0xffffffff))
      ∧ ∀ F : QueryRangeFrames .eight .eight, first < last →
        (last ≤ 0xffffffff →
          Yields (wow64QueryRangeEcIn F os stack handle fuel first last ec) (fuelOutcome
            ((queryRangeUsingQueryEc
              (fun x => windowsQueryEc 32 os (stack (x.setWidth 64)) handle x) fuel
              (first.setWidth 32) (last.setWidth 32) ec).map
                (Except.map (Prod.map (List.map BasicRegion.widen) id)))))
        ∧ (0xffffffff < last → ∀ m,
          ((wow64QueryRangeEcIn F os stack handle fuel first last ec).run m).1 = .ok none
            ∨ if 0xffffffff ≤ first then
                ((wow64QueryRangeEcIn F os stack handle fuel first last ec).run m).1
                  = .error .terminate
              else ∃ regions ec',
                ((wow64QueryRangeEcIn F os stack handle fuel first last ec).run m).1
                  = .ok (some (regions, ec')) ∧ ec'.isSet = true) := by
  refine ⟨⟨?_, fun h F => wow64QueryRangeEcIn_inside h fuel ec⟩, ?_⟩
  · rintro hall ⟨hlt, hfirst⟩
    have hleaves : Leaves _ 0
        (wow64QueryRangeEcIn sampleRangeFrames os stack handle (fuel + 1) first last ec) :=
      wow64QueryRangeEcIn_leaves (by decide) (by decide) hlt hfirst fuel ec
    exact hleaves.not_writesOnly 0xFF (by decide) (by decide) (hall sampleRangeFrames)
  · intro F hlt
    obtain ⟨hin, hbeyond⟩ := wow64QueryRangeEc_widened handle stack hos hcode hlt fuel ec
    have hyields := wow64QueryRangeEcIn_yields F os stack handle fuel first last ec
    refine ⟨fun hlast => ?_, fun hlast m => ?_⟩
    · rw [← hin hlast]
      exact hyields
    · rw [hyields m]
      cases hrun : queryRangeUsingQueryEc (fun x => wow64RemoteQueryEc 64 os (stack x) handle x)
          fuel first last ec with
      | none => exact Or.inl rfl
      | some result =>
          refine Or.inr ?_
          have hresult := hbeyond hlast result hrun
          by_cases hfirst : 0xffffffff ≤ first
          · rw [if_pos hfirst] at hresult ⊢
            rw [hresult]
            rfl
          · rw [if_neg hfirst] at hresult ⊢
            obtain ⟨regions, ec', rfl, hset⟩ := hresult
            exact ⟨regions, ec', rfl, hset⟩

theorem wow64QueryRangeEcIn_spec_sample :
    ((∀ F : QueryRangeFrames .eight .eight, WritesOnly F.Covers
          (wow64QueryRangeEcIn F sampleWindows32 sampleStack32 8 3 (0x100000000 : BitVec 64)
            0x100001000 {}))
        ↔ ¬ ((0x100000000 : BitVec 64) < 0x100001000 ∧ (0x100000000 : BitVec 64) < 0xffffffff))
      ∧ ∀ m, ((wow64QueryRangeEcIn sampleRangeFrames sampleWindows32 sampleStack32 8 2
            (0x1000 : BitVec 64) 0x100000000 {}).run m).1 = .ok none
          ∨ ∃ regions ec', ((wow64QueryRangeEcIn sampleRangeFrames sampleWindows32 sampleStack32 8 2
              (0x1000 : BitVec 64) 0x100000000 {}).run m).1 = .ok (some (regions, ec'))
            ∧ ec'.isSet = true :=
  ⟨(wow64QueryRangeEcIn_spec sampleWindows32 sampleStack32 sampleWindows32_pageAligned
      sampleWindows32_failsWithCode 8 2 0x100000000 0x100001000 {}).1,
    ((wow64QueryRangeEcIn_spec sampleWindows32 sampleStack32 sampleWindows32_pageAligned
      sampleWindows32_failsWithCode 8 2 0x1000 0x100000000 {}).2 sampleRangeFrames
        (by decide)).2 (by decide)⟩

end VmUtils
