import VmUtils.QueryRangeErrorCode

/-! # Another process on 32-bit Windows

    There the queries of another process take 64-bit addresses, and
    `VirtualQueryEx` takes 32-bit ones.  As far as the 32-bit addresses go
    `query_range` does what it would do on those, round by round
    (`usingQueryLoop_sim`).  Its cursor does not leave them, since a region that ends
    at 2^32 is stored with the end 0.  So a range that ends behind them is never
    reported: `query_range` goes on until a system call fails, and if the range
    also begins behind them it throws, or ends the program where it is `noexcept`
    (`wow64QueryRange_widened`, `wow64QueryRangeEc_widened`).  All this is about the
    numbers; on bytes the cast to a pointer overruns it. -/

namespace VmUtils

variable {v w : Nat}

/-! ## Loops on addresses of two widths -/

section

variable {f : BitVec v → BitVec w} {g : BasicRegion v → BasicRegion w} {last : BitVec v}

/-- **Two loops in step**: cursors compare with the ends alike, and a query gives
    corresponding answers and cursors. -/
theorem usingQueryLoop_sim (query : BitVec v → Except Exn (BasicRegion v))
    (query' : BitVec w → Except Exn (BasicRegion w)) (hlt : ∀ x, x < last ↔ f x < f last)
    (hq : ∀ x, x < last → query' (f x) = (query x).map g)
    (hend : ∀ x r, x < last → query x = .ok r → (g r).end = f r.end) (fuel : Nat)
    (cur : BitVec v) (acc : List (BasicRegion v)) :
    usingQueryLoop query' (f last) fuel (f cur) (acc.map g)
      = (usingQueryLoop query last fuel cur acc).map (Except.map (List.map g)) := by
  induction fuel generalizing cur acc with
  | zero => rfl
  | succ fuel ih =>
      by_cases h : cur < last
      · rw [usingQueryLoop, if_pos ((hlt cur).mp h), usingQueryLoop, if_pos h, hq cur h]
        rcases hr : query cur with e | r
        · rfl
        · have hacc : acc.map g ++ [g r] = (acc ++ [r]).map g := by rw [List.map_append]; rfl
          show usingQueryLoop query' (f last) fuel (g r).end (acc.map g ++ [g r]) = _
          rw [hend cur r h hr, hacc]
          exact ih r.end (acc ++ [r])
      · rw [usingQueryLoop, if_neg (fun h' => h ((hlt cur).mpr h')), usingQueryLoop, if_neg h]
        rfl

/-- With `ec` the cursor matters only while `ec` is clear. -/
theorem usingQueryLoopEc_sim
    (queryEc : BitVec v → ErrorCode → Except Exn (BasicRegion v × ErrorCode))
    (queryEc' : BitVec w → ErrorCode → Except Exn (BasicRegion w × ErrorCode))
    (hlt : ∀ x, x < last ↔ f x < f last)
    (hq : ∀ x ec, x < last → queryEc' (f x) ec = (queryEc x ec).map (Prod.map g id))
    (hend : ∀ x ec r ec', x < last → queryEc x ec = .ok (r, ec') → ec'.isSet = false →
      (g r).end = f r.end) (fuel : Nat) (cur : BitVec v) (ec : ErrorCode)
    (acc : List (BasicRegion v)) :
    usingQueryLoopEc queryEc' (f last) fuel (f cur) ec (acc.map g)
      = (usingQueryLoopEc queryEc last fuel cur ec acc).map
          (Except.map (Prod.map (List.map g) id)) := by
  induction fuel generalizing cur ec acc with
  | zero => rfl
  | succ fuel ih =>
      by_cases h : cur < last
      · rcases hr : queryEc cur ec with e | ⟨r, ec'⟩
        · rw [usingQueryLoopEc, if_pos ((hlt cur).mp h), usingQueryLoopEc, if_pos h,
            hq cur ec h, hr]
          rfl
        · have hr' : queryEc' (f cur) ec = .ok (g r, ec') := by rw [hq cur ec h, hr]; rfl
          have hacc : acc.map g ++ [g r] = (acc ++ [r]).map g := by rw [List.map_append]; rfl
          rw [usingQueryLoopEc_lt ((hlt cur).mp h) hr', usingQueryLoopEc_lt h hr, hacc]
          by_cases hset : ec'.isSet = true
          · rw [if_pos hset, if_pos hset]
            rfl
          · rw [if_neg hset, if_neg hset, hend cur ec r ec' h hr (Bool.eq_false_iff.mpr hset)]
            exact ih r.end ec' (acc ++ [r])
      · rw [usingQueryLoopEc, if_neg (fun h' => h ((hlt cur).mpr h')), usingQueryLoopEc, if_neg h]
        rfl

end

/-! ## The queries -/

/-- The region with its bounds as 64-bit addresses. -/
def BasicRegion.widen (r : BasicRegion 32) : BasicRegion 64 where
  beginAddr := r.beginAddr.setWidth 64
  endAddr := r.endAddr.setWidth 64
  protection := r.protection
  used := r.used
  shared := r.shared
  guarded := r.guarded

/-- Regions end at the end of a page. -/
def WindowsMemory.PageAligned (os : WindowsMemory 32) : Prop :=
  ∀ handle x info, os.virtualQueryEx handle x = .ok info →
    0x1000 ∣ (info.baseAddress + info.regionSize).toNat

/-- A call that fails leaves an error for `GetLastError`. -/
def WindowsMemory.FailsWithCode (os : WindowsMemory 32) : Prop :=
  ∀ handle x, os.virtualQueryEx handle x ≠ .error 0

/-- No cast of a 32-bit address fails. -/
theorem addressCast_widen (x : BitVec 32) : addressCast 64 x = .ok (x.setWidth 64) := by
  rw [addressCast, if_neg (fun h => absurd h.1 (by decide)), addressCastUnchecked]

/-- `parse_info` returns the same region in both widths. -/
theorem parseInfo_widen (info : MemoryBasicInformation 32) :
    ∃ r, parseInfo 32 info = .ok r ∧ parseInfo 64 info = .ok r.widen
      ∧ r.endAddr = info.baseAddress + info.regionSize := by
  rw [parseInfo, parseInfo]
  by_cases h : info.state = memFree
  · rw [if_pos h, if_pos h, addressCast_self, addressCast_self, addressCast_widen,
      addressCast_widen]
    exact ⟨_, rfl, rfl, rfl⟩
  · rw [if_neg h, if_neg h, addressCast_self, addressCast_self, addressCast_widen,
      addressCast_widen]
    exact ⟨_, rfl, rfl, rfl⟩

variable {os : WindowsMemory 32} {handle : Int}

/-- The query on 32-bit addresses is a system call and `parse_info`. -/
theorem windowsQuery_32 (w : Nat) (os : WindowsMemory 32) (handle : Int) (x : BitVec 32) :
    windowsQuery w os handle x = nativeQuery os handle x >>= parseInfo w := by
  rw [windowsQuery, addressCast_self]
  rfl

/-- It fails only with the system call. -/
theorem windowsQuery_error {x : BitVec 32} {e : Exn} (h : windowsQuery 32 os handle x = .error e) :
    ∃ code, e = .systemError { value := code } "VirtualQueryEx() failed" := by
  rw [windowsQuery_32] at h
  rcases bind_eq_error h with hnative | ⟨info, -, hparse⟩
  · rw [nativeQuery] at hnative
    rcases hcall : os.virtualQueryEx handle x with code | info
    · rw [hcall] at hnative
      exact ⟨code, (Except.error.inj hnative).symm⟩
    · rw [hcall] at hnative
      cases hnative
  · obtain ⟨r, hr, -⟩ := parseInfo_widen info
    rw [hr] at hparse
    cases hparse

theorem windowsQueryEc_32 (os : WindowsMemory 32) (info : MemoryBasicInformation 32) (handle : Int)
    (x : BitVec 32) (ec : ErrorCode) :
    ∃ r, windowsQueryEc 32 os info handle x ec = .ok (r, (nativeQueryEc os info handle x ec).2)
      ∧ parseInfo 64 (nativeQueryEc os info handle x ec).1 = .ok r.widen
      ∧ r.endAddr = (nativeQueryEc os info handle x ec).1.baseAddress
        + (nativeQueryEc os info handle x ec).1.regionSize := by
  obtain ⟨r, hr, hwide, hend⟩ := parseInfo_widen (nativeQueryEc os info handle x ec).1
  refine ⟨r, ?_, hwide, hend⟩
  rw [windowsQueryEc, addressCast_self]
  refine ite_noexcept_of_ok ?_
  show (parseInfo 32 (nativeQueryEc os info handle x ec).1 >>= fun region => _) = _
  rw [hr]
  rfl

/-- On a 32-bit address but the last `wow64_query` answers as the query on 32-bit
    addresses does. -/
theorem wow64RemoteQuery_of_lt {x : BitVec 32} (hx : x < 0xffffffff) :
    wow64RemoteQuery 64 os handle (x.setWidth 64) = (windowsQuery 32 os handle x).map .widen := by
  have hnot : ¬ (0xffffffff : BitVec 64) ≤ x.setWidth 64 := by bv_omega
  rw [windowsQuery_32, wow64RemoteQuery, addressCast_self]
  show wow64Query os handle (x.setWidth 64) >>= parseInfo 64 = _
  rw [wow64Query, if_neg hnot, addressCastUnchecked, BitVec.setWidth_setWidth_of_le _ (by decide),
    BitVec.setWidth_eq]
  rcases nativeQuery os handle x with e | info
  · rfl
  · obtain ⟨r, hr, hwide, -⟩ := parseInfo_widen info
    show parseInfo 64 info = (parseInfo 32 info).map .widen
    rw [hr, hwide]
    rfl

theorem wow64RemoteQueryEc_of_lt {x : BitVec 32} (hx : x < 0xffffffff)
    (info : MemoryBasicInformation 32) (ec : ErrorCode) :
    wow64RemoteQueryEc 64 os info handle (x.setWidth 64) ec
      = (windowsQueryEc 32 os info handle x ec).map (Prod.map .widen id) := by
  have hnot : ¬ (0xffffffff : BitVec 64) ≤ x.setWidth 64 := by bv_omega
  obtain ⟨r, hr, hwide, -⟩ := windowsQueryEc_32 os info handle x ec
  rw [hr, wow64RemoteQueryEc, addressCast_self]
  refine ite_noexcept_of_ok ?_
  show (wow64QueryEc os info handle (x.setWidth 64) ec >>= fun answer =>
    parseInfo 64 answer.1 >>= fun region => pure (region, answer.2)) = _
  rw [wow64QueryEc, if_neg hnot, addressCastUnchecked,
    BitVec.setWidth_setWidth_of_le _ (by decide), BitVec.setWidth_eq]
  show (parseInfo 64 (nativeQueryEc os info handle x ec).1 >>= fun region => _) = _
  rw [hwide]
  rfl

/-- From there on it throws. -/
theorem wow64RemoteQuery_of_le {x : BitVec 64} (hx : 0xffffffff ≤ x) :
    wow64RemoteQuery 64 os handle x = .error (.logicError "not implemented") := by
  rw [wow64RemoteQuery, addressCast_self]
  show wow64Query os handle x >>= parseInfo 64 = _
  rw [wow64Query, if_pos hx]
  rfl

/-- The overload with `ec` is `noexcept`. -/
theorem wow64RemoteQueryEc_of_le {x : BitVec 64} (hx : 0xffffffff ≤ x)
    (info : MemoryBasicInformation 32) (ec : ErrorCode) :
    wow64RemoteQueryEc 64 os info handle x ec = .error .terminate := by
  rw [wow64RemoteQueryEc, addressCast_self, if_neg (Nat.lt_irrefl 64)]
  show noexcept (wow64QueryEc os info handle x ec >>= fun answer => _) = _
  rw [wow64QueryEc, if_pos hx]
  rfl

/-! ## The cursor -/

/-- Behind the end of a page the cursor is the same in both widths, and in front
    of the last address of 32 bits. -/
theorem widen_end {r : BasicRegion 32} (h : 0x1000 ∣ r.endAddr.toNat) :
    r.widen.end = r.end.setWidth 64 ∧ r.end < 0xffffffff := by
  have hlt := r.endAddr.isLt
  constructor
  · show r.endAddr.setWidth 64 + 1#64 = (r.endAddr + 1#32).setWidth 64
    bv_omega
  · show r.endAddr + 1#32 < 0xffffffff
    bv_omega

theorem windowsQuery_end (hos : os.PageAligned) {x : BitVec 32} {r : BasicRegion 32}
    (h : windowsQuery 32 os handle x = .ok r) :
    r.widen.end = r.end.setWidth 64 ∧ r.end < 0xffffffff := by
  rw [windowsQuery_32] at h
  obtain ⟨info, hinfo, hparse⟩ := bind_eq_ok h
  obtain ⟨r', hr', -, hend⟩ := parseInfo_widen info
  obtain rfl : r' = r := Except.ok.inj (hr'.symm.trans hparse)
  refine widen_end ?_
  rw [hend]
  rw [nativeQuery] at hinfo
  rcases hcall : os.virtualQueryEx handle x with code | info'
  · rw [hcall] at hinfo
    cases hinfo
  · rw [hcall] at hinfo
    obtain rfl := Except.ok.inj hinfo
    exact hos handle x info' hcall

/-- With `ec` a call that fails sets it, so that the region from the stack does not
    move the cursor. -/
theorem windowsQueryEc_end (hos : os.PageAligned) (hcode : os.FailsWithCode)
    {info : MemoryBasicInformation 32} {x : BitVec 32} {ec ec' : ErrorCode} {r : BasicRegion 32}
    (h : windowsQueryEc 32 os info handle x ec = .ok (r, ec')) (hclear : ec'.isSet = false) :
    r.widen.end = r.end.setWidth 64 ∧ r.end < 0xffffffff := by
  obtain ⟨r', hr', -, hend⟩ := windowsQueryEc_32 os info handle x ec
  obtain ⟨rfl, rfl⟩ := Prod.mk.inj (Except.ok.inj (hr'.symm.trans h))
  refine widen_end ?_
  rw [hend]
  rcases hcall : os.virtualQueryEx handle x with code | info'
  · have hec : (nativeQueryEc os info handle x ec).2 = { value := code } := by
      rw [nativeQueryEc, hcall]
    rw [hec] at hclear
    have hzero : code = 0 := by simpa [ErrorCode.isSet] using hclear
    exact absurd (hcall.trans (congrArg Except.error hzero)) (hcode handle x)
  · have hinfo : (nativeQueryEc os info handle x ec).1 = info' := by rw [nativeQueryEc, hcall]
    rw [hinfo]
    exact hos handle x info' hcall

/-! ## `query_range` -/

/-- A cursor of 32 bits does not reach an end behind them, so the loop stops at a
    call that fails or not at all. -/
theorem wow64Loop_beyond (hos : os.PageAligned) {last : BitVec 64} (hlast : 0xffffffff < last)
    {fuel : Nat} {cur : BitVec 32} (hcur : cur < 0xffffffff) {acc : List (BasicRegion 64)}
    {result : Except Exn (List (BasicRegion 64))}
    (h : usingQueryLoop (wow64RemoteQuery 64 os handle) last fuel (cur.setWidth 64) acc
      = some result) :
    ∃ code, result = .error (.systemError { value := code } "VirtualQueryEx() failed") := by
  induction fuel generalizing cur acc with
  | zero => cases h
  | succ fuel ih =>
      -- every cursor is in front of `last`, so only a query ends the loop
      have hlt : cur.setWidth 64 < last := by bv_omega
      rw [usingQueryLoop, if_pos hlt, wow64RemoteQuery_of_lt hcur] at h
      rcases hr : windowsQuery 32 os handle cur with e | r
      · rw [hr] at h
        obtain ⟨code, rfl⟩ := windowsQuery_error hr
        exact ⟨code, (Option.some.inj h).symm⟩
      · obtain ⟨hend, hnext⟩ := windowsQuery_end hos hr
        rw [hr] at h
        have hrest : usingQueryLoop (wow64RemoteQuery 64 os handle) last fuel r.widen.end
            (acc ++ [r.widen]) = some result := h
        rw [hend] at hrest
        exact ih hnext hrest

/-- With `ec` the call that fails sets it. -/
theorem wow64LoopEc_beyond (hos : os.PageAligned) (hcode : os.FailsWithCode)
    (stack : BitVec 64 → MemoryBasicInformation 32) {last : BitVec 64} (hlast : 0xffffffff < last)
    {fuel : Nat} {cur : BitVec 32} (hcur : cur < 0xffffffff) {ec : ErrorCode}
    {acc : List (BasicRegion 64)} {result : Except Exn (List (BasicRegion 64) × ErrorCode)}
    (h : usingQueryLoopEc (fun x => wow64RemoteQueryEc 64 os (stack x) handle x) last fuel
      (cur.setWidth 64) ec acc = some result) :
    ∃ regions ec', result = .ok (regions, ec') ∧ ec'.isSet = true := by
  induction fuel generalizing cur ec acc with
  | zero => cases h
  | succ fuel ih =>
      have hlt : cur.setWidth 64 < last := by bv_omega
      obtain ⟨r, hr, -⟩ := windowsQueryEc_32 os (stack (cur.setWidth 64)) handle cur ec
      generalize (nativeQueryEc os (stack (cur.setWidth 64)) handle cur ec).2 = ec' at hr
      have hwide : wow64RemoteQueryEc 64 os (stack (cur.setWidth 64)) handle (cur.setWidth 64) ec
          = .ok (r.widen, ec') := by
        rw [wow64RemoteQueryEc_of_lt hcur, hr]
        rfl
      rw [usingQueryLoopEc, if_pos hlt, hwide] at h
      dsimp only at h
      by_cases hset : ec'.isSet = true
      · -- the call has failed: its region is reported and the loop is left
        rw [if_pos hset] at h
        exact ⟨acc ++ [r.widen], ec', (Option.some.inj h).symm, hset⟩
      · obtain ⟨hend, hnext⟩ :=
          windowsQueryEc_end hos hcode hr (Bool.eq_false_iff.mpr hset)
        rw [if_neg hset, hend] at h
        exact ih hnext h

/-- An address of 32 bits is the one its low bits give. -/
theorem setWidth_of_le {x : BitVec 64} (hx : x ≤ 0xffffffff) : (x.setWidth 32).setWidth 64 = x := by
  bv_omega

theorem setWidth_lt_iff {x y : BitVec 32} : x < y ↔ x.setWidth 64 < y.setWidth 64 := by
  bv_omega

/-- **`query_range(handle, begin, end)` of 32-bit Windows**, as far as the numbers go:
    in front of 2^32 it ends as on 32-bit addresses, with the regions widened or with
    the same exception; a range that ends behind is refused if it begins there, and
    otherwise runs until a system call fails. -/
theorem wow64QueryRange_widened (handle : Int) (hos : os.PageAligned)
    {first last : BitVec 64} (hlt : first < last) (fuel : Nat) :
    (last ≤ 0xffffffff →
        queryRangeUsingQuery (wow64RemoteQuery 64 os handle) fuel first last
          = (queryRangeUsingQuery (windowsQuery 32 os handle) fuel (first.setWidth 32)
              (last.setWidth 32)).map (Except.map (List.map BasicRegion.widen)))
      ∧ (0xffffffff < last → ∀ result,
        queryRangeUsingQuery (wow64RemoteQuery 64 os handle) fuel first last = some result →
          if 0xffffffff ≤ first then result = .error (.logicError "not implemented")
          else ∃ code,
            result = .error (.systemError { value := code } "VirtualQueryEx() failed")) := by
  have hloop : queryRangeUsingQuery (wow64RemoteQuery 64 os handle) fuel first last
      = usingQueryLoop (wow64RemoteQuery 64 os handle) last fuel first [] := by
    rw [queryRangeUsingQuery, addressCast_self, addressCast_self]
  rw [hloop]
  constructor
  · intro hlast
    rw [queryRangeUsingQuery, addressCast_self, addressCast_self]
    have hq : ∀ x : BitVec 32, x < last.setWidth 32 →
        wow64RemoteQuery 64 os handle (x.setWidth 64)
          = (windowsQuery 32 os handle x).map BasicRegion.widen := by
      intro x hx
      -- a cursor in front of `last` is not the last 32-bit address
      refine wow64RemoteQuery_of_lt ?_
      bv_omega
    have hsim := usingQueryLoop_sim (windowsQuery 32 os handle) (wow64RemoteQuery 64 os handle)
      (fun x => setWidth_lt_iff) hq (fun x r _ hr => (windowsQuery_end hos hr).1) fuel
      (first.setWidth 32) []
    rw [setWidth_of_le hlast, setWidth_of_le (Nat.le_trans (Nat.le_of_lt hlt) hlast)] at hsim
    exact hsim
  · intro hlast result h
    by_cases hfirst : 0xffffffff ≤ first
    · rw [if_pos hfirst]
      cases fuel with
      | zero => cases h
      | succ fuel =>
          rw [usingQueryLoop, if_pos hlt, wow64RemoteQuery_of_le hfirst] at h
          exact (Option.some.inj h).symm
    · rw [if_neg hfirst]
      have hle : first ≤ 0xffffffff := Nat.le_of_lt (Nat.lt_of_not_le hfirst)
      have hcur : first.setWidth 32 < (0xffffffff : BitVec 32) := by bv_omega
      rw [← setWidth_of_le hle] at h
      exact wow64Loop_beyond hos hlast hcur h

/-- **With `ec`** the same regions and the same `ec`; a range that ends behind the
    32-bit addresses ends the program if it begins there, and otherwise returns
    only with an error. -/
theorem wow64QueryRangeEc_widened (handle : Int)
    (stack : BitVec 64 → MemoryBasicInformation 32) (hos : os.PageAligned)
    (hcode : os.FailsWithCode) {first last : BitVec 64} (hlt : first < last) (fuel : Nat)
    (ec : ErrorCode) :
    (last ≤ 0xffffffff →
        queryRangeUsingQueryEc (fun x => wow64RemoteQueryEc 64 os (stack x) handle x) fuel first
            last ec
          = (queryRangeUsingQueryEc
              (fun x => windowsQueryEc 32 os (stack (x.setWidth 64)) handle x) fuel
              (first.setWidth 32) (last.setWidth 32) ec).map
            (Except.map (Prod.map (List.map BasicRegion.widen) id)))
      ∧ (0xffffffff < last → ∀ result,
        queryRangeUsingQueryEc (fun x => wow64RemoteQueryEc 64 os (stack x) handle x) fuel first
            last ec = some result →
          if 0xffffffff ≤ first then result = .error .terminate
          else ∃ regions ec', result = .ok (regions, ec') ∧ ec'.isSet = true) := by
  have hloop : queryRangeUsingQueryEc (fun x => wow64RemoteQueryEc 64 os (stack x) handle x) fuel
        first last ec
      = usingQueryLoopEc (fun x => wow64RemoteQueryEc 64 os (stack x) handle x) last fuel first ec
        [] := by
    rw [queryRangeUsingQueryEc, addressCast_self, addressCast_self]
  rw [hloop]
  constructor
  · intro hlast
    rw [queryRangeUsingQueryEc, addressCast_self, addressCast_self]
    have hq : ∀ (x : BitVec 32) (ec : ErrorCode), x < last.setWidth 32 →
        wow64RemoteQueryEc 64 os (stack (x.setWidth 64)) handle (x.setWidth 64) ec
          = (windowsQueryEc 32 os (stack (x.setWidth 64)) handle x ec).map
            (Prod.map BasicRegion.widen id) := by
      intro x ec hx
      refine wow64RemoteQueryEc_of_lt ?_ _ ec
      bv_omega
    have hsim := usingQueryLoopEc_sim
      (fun x => windowsQueryEc 32 os (stack (x.setWidth 64)) handle x)
      (fun x => wow64RemoteQueryEc 64 os (stack x) handle x) (fun x => setWidth_lt_iff) hq
      (fun x _ r _ _ hr hclear => (windowsQueryEc_end hos hcode hr hclear).1) fuel
      (first.setWidth 32) ec []
    rw [setWidth_of_le hlast, setWidth_of_le (Nat.le_trans (Nat.le_of_lt hlt) hlast)] at hsim
    exact hsim
  · intro hlast result h
    by_cases hfirst : 0xffffffff ≤ first
    · rw [if_pos hfirst]
      cases fuel with
      | zero => cases h
      | succ fuel =>
          rw [usingQueryLoopEc, if_pos hlt, wow64RemoteQueryEc_of_le hfirst] at h
          exact (Option.some.inj h).symm
    · rw [if_neg hfirst]
      have hle : first ≤ 0xffffffff := Nat.le_of_lt (Nat.lt_of_not_le hfirst)
      have hcur : first.setWidth 32 < (0xffffffff : BitVec 32) := by bv_omega
      rw [← setWidth_of_le hle] at h
      exact wow64LoopEc_beyond hos hcode stack hlast hcur h

end VmUtils
