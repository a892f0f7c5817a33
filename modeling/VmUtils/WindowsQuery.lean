import VmUtils.QueryRangeUsingQuery

/-! # The Windows queries

    `detail/windows/query.inl`.  Pointers have `n` bits.  On 64-bit Windows the
    remote query is the native one, and on a layout that `VirtualQueryEx`
    describes, `query` answers as the loop of `query_range` needs it
    (`windowsQuery_answers`).  On 32-bit Windows the remote query is
    `wow64_query`. -/

namespace VmUtils

variable {a n : Nat}

/-- The fields of `MEMORY_BASIC_INFORMATION` that the library reads. -/
structure MemoryBasicInformation (n : Nat := 64) where
  baseAddress : BitVec n
  regionSize : BitVec n
  state : BitVec 32
  protect : BitVec 32
  type : BitVec 32

def memFree : BitVec 32 := 0x10000

def memReserve : BitVec 32 := 0x2000

def memPrivate : BitVec 32 := 0x20000

def pageGuard : BitVec 32 := 0x100

def noAccess : BitVec 32 := 0x01

/-- `parse_info`, a `noexcept` function. -/
def parseInfo (w : Nat) (info : MemoryBasicInformation n) : Except Exn (BasicRegion w) :=
  noexcept do
    let last := info.baseAddress + info.regionSize
    if info.state = memFree then
      let lo ← addressCast w info.baseAddress
      let hi ← addressCast w last
      return BasicRegion.free lo hi
    else
      let lo ← addressCast w info.baseAddress
      let hi ← addressCast w last
      return BasicRegion.mapped lo hi ⟨if info.state = memReserve then noAccess else info.protect⟩
        (info.type &&& memPrivate == 0) (info.protect &&& pageGuard != 0)

/-- `parse_info` returns or ends the program. -/
theorem parseInfo_cases (w : Nat) (info : MemoryBasicInformation n) :
    (∃ r, parseInfo w info = .ok r) ∨ parseInfo w info = .error .terminate :=
  noexcept_cases _

/-- What the queries ask of Windows.  `VirtualQueryEx` fails with the code that
    `GetLastError` then returns. -/
structure WindowsMemory (n : Nat := 64) where
  virtualQueryEx : Int → BitVec n → Except Int (MemoryBasicInformation n)
  getCurrentProcess : Int

/-- `native_query::query(handle, address)`. -/
def nativeQuery (os : WindowsMemory n) (handle : Int) (address : BitVec n) :
    Except Exn (MemoryBasicInformation n) :=
  match os.virtualQueryEx handle address with
  | .ok info => .ok info
  | .error code => .error (.systemError { value := code } "VirtualQueryEx() failed")

/-- `native_query::query(handle, address, ec)`.  When the call fails `info` is
    returned as the stack had it. -/
def nativeQueryEc (os : WindowsMemory n) (info : MemoryBasicInformation n) (handle : Int)
    (address : BitVec n) (ec : ErrorCode) : MemoryBasicInformation n × ErrorCode :=
  match os.virtualQueryEx handle address with
  | .ok info => (info, ec)
  | .error code => (info, { value := code })

/-- `query_impl` with `native_query`: `query(handle, address)` of 64-bit Windows. -/
def windowsQuery (w : Nat) (os : WindowsMemory n) (handle : Int) (address : BitVec a) :
    Except Exn (BasicRegion w) := do
  let addr ← addressCast n address
  let info ← nativeQuery os handle addr
  parseInfo w info

/-- `query(address)`. -/
def windowsQueryLocal (w : Nat) (os : WindowsMemory n) (address : BitVec a) :
    Except Exn (BasicRegion w) :=
  windowsQuery w os os.getCurrentProcess address

/-- `query_impl` with `native_query` and `ec`, `noexcept` if the cast of the
    address is not checked. -/
def windowsQueryEc (w : Nat) (os : WindowsMemory n) (info : MemoryBasicInformation n)
    (handle : Int) (address : BitVec a) (ec : ErrorCode) :
    Except Exn (BasicRegion w × ErrorCode) :=
  let body : Except Exn (BasicRegion w × ErrorCode) := do
    let addr ← addressCast n address
    let (info, ec) := nativeQueryEc os info handle addr ec
    let region ← parseInfo w info
    return (region, ec)
  if n < a then body else noexcept body

/-- `query(address, ec)`. -/
def windowsQueryLocalEc (w : Nat) (os : WindowsMemory n) (info : MemoryBasicInformation n)
    (address : BitVec a) (ec : ErrorCode) : Except Exn (BasicRegion w × ErrorCode) :=
  windowsQueryEc w os info os.getCurrentProcess address ec

/-- `wow64_query::query(handle, address)`: a 64-bit address on 32-bit Windows.  This is
    its outcome; what the cast to a pointer writes is in `wow64QueryIn`. -/
def wow64Query (os : WindowsMemory 32) (handle : Int) (address : BitVec 64) :
    Except Exn (MemoryBasicInformation 32) :=
  if 0xffffffff ≤ address then .error (.logicError "not implemented")
  else nativeQuery os handle (addressCastUnchecked 32 address)

/-- The outcome of `wow64_query::query(handle, address, ec)`, see `wow64QueryEcIn`. -/
def wow64QueryEc (os : WindowsMemory 32) (info : MemoryBasicInformation 32) (handle : Int)
    (address : BitVec 64) (ec : ErrorCode) : Except Exn (MemoryBasicInformation 32 × ErrorCode) :=
  if 0xffffffff ≤ address then .error (.logicError "not implemented")
  else .ok (nativeQueryEc os info handle (addressCastUnchecked 32 address) ec)

/-- `query_impl` with `wow64_query`: `query(handle, address)` of 32-bit Windows. -/
def wow64RemoteQuery (w : Nat) (os : WindowsMemory 32) (handle : Int) (address : BitVec a) :
    Except Exn (BasicRegion w) := do
  let addr ← addressCast 64 address
  let info ← wow64Query os handle addr
  parseInfo w info

/-- `query_impl` with `wow64_query` and `ec`. -/
def wow64RemoteQueryEc (w : Nat) (os : WindowsMemory 32) (info : MemoryBasicInformation 32)
    (handle : Int) (address : BitVec a) (ec : ErrorCode) :
    Except Exn (BasicRegion w × ErrorCode) :=
  let body : Except Exn (BasicRegion w × ErrorCode) := do
    let addr ← addressCast 64 address
    let (info, ec) ← wow64QueryEc os info handle addr ec
    let region ← parseInfo w info
    return (region, ec)
  if 64 < a then body else noexcept body

/-- At 64-bit addresses only `parse_info` can end the query, by `std::terminate`. -/
theorem windowsQueryEc_64 (w : Nat) (os : WindowsMemory) (info : MemoryBasicInformation)
    (handle : Int) (address : BitVec 64) (ec : ErrorCode) :
    windowsQueryEc w os info handle address ec
      = (parseInfo w (nativeQueryEc os info handle address ec).1).map
          (fun region => (region, (nativeQueryEc os info handle address ec).2)) := by
  rw [windowsQueryEc, addressCast_self, if_neg (Nat.lt_irrefl 64)]
  show noexcept (parseInfo w (nativeQueryEc os info handle address ec).1 >>= fun region => _) = _
  rcases parseInfo_cases w (nativeQueryEc os info handle address ec).1 with ⟨r, hr⟩ | herr
  · rw [hr]
    rfl
  · rw [herr]
    rfl

/-- A system call that succeeds leaves `ec` alone. -/
theorem nativeQueryEc_of_ok {os : WindowsMemory n} {handle : Int} {address : BitVec n}
    {answer : MemoryBasicInformation n} (h : nativeQuery os handle address = .ok answer)
    (info : MemoryBasicInformation n) (ec : ErrorCode) :
    nativeQueryEc os info handle address ec = (answer, ec) := by
  rw [nativeQuery] at h
  rw [nativeQueryEc]
  rcases hcall : os.virtualQueryEx handle address with code | answer'
  · rw [hcall] at h
    cases h
  · rw [hcall] at h
    rw [Except.ok.inj h]

/-- A query that succeeds does so with `ec`, and leaves it alone. -/
theorem windowsQueryEc_of_ok {w : Nat} {os : WindowsMemory n} {handle : Int} {address : BitVec a}
    {r : BasicRegion w} (h : windowsQuery w os handle address = .ok r)
    (info : MemoryBasicInformation n) (ec : ErrorCode) :
    windowsQueryEc w os info handle address ec = .ok (r, ec) := by
  obtain ⟨addr, haddr, h⟩ := bind_eq_ok h
  obtain ⟨answer, hanswer, hparse⟩ := bind_eq_ok h
  refine ite_noexcept_of_ok ?_
  rw [haddr]
  show (parseInfo w (nativeQueryEc os info handle addr ec).1 >>= fun region =>
    pure (region, (nativeQueryEc os info handle addr ec).2)) = _
  rw [nativeQueryEc_of_ok hanswer, hparse]
  rfl

/-- So does the remote query of 32-bit Windows. -/
theorem wow64RemoteQueryEc_of_ok {w : Nat} {os : WindowsMemory 32} {handle : Int}
    {address : BitVec a} {r : BasicRegion w} (h : wow64RemoteQuery w os handle address = .ok r)
    (info : MemoryBasicInformation 32) (ec : ErrorCode) :
    wow64RemoteQueryEc w os info handle address ec = .ok (r, ec) := by
  obtain ⟨addr, haddr, h⟩ := bind_eq_ok h
  obtain ⟨answer, hanswer, hparse⟩ := bind_eq_ok h
  have hremote : wow64QueryEc os info handle addr ec = .ok (answer, ec) := by
    rw [wow64Query] at hanswer
    rw [wow64QueryEc]
    by_cases hwide : 0xffffffff ≤ addr
    · rw [if_pos hwide] at hanswer
      cases hanswer
    · rw [if_neg hwide] at hanswer ⊢
      rw [nativeQueryEc_of_ok hanswer]
  refine ite_noexcept_of_ok ?_
  rw [haddr]
  show (wow64QueryEc os info handle addr ec >>= fun answer =>
    parseInfo w answer.1 >>= fun region => pure (region, answer.2)) = _
  rw [hremote]
  show (parseInfo w answer >>= fun region => pure (region, ec)) = _
  rw [hparse]
  rfl

/-- A query that fails parses what the stack held. -/
theorem windowsQueryEc_of_error {w : Nat} {os : WindowsMemory n} {handle : Int}
    {address : BitVec a} {addr : BitVec n} {code : Int}
    (haddr : addressCast n address = .ok addr)
    (hfail : os.virtualQueryEx handle addr = .error code) (info : MemoryBasicInformation n)
    (ec : ErrorCode) :
    windowsQueryEc w os info handle address ec
      = (parseInfo w info).map (fun region => (region, { value := code })) := by
  have hnative : nativeQueryEc os info handle addr ec = (info, { value := code }) := by
    rw [nativeQueryEc, hfail]
  rw [windowsQueryEc, haddr]
  have hbody : (do
      let region ← parseInfo w (nativeQueryEc os info handle addr ec).1
      return (region, (nativeQueryEc os info handle addr ec).2)
        : Except Exn (BasicRegion w × ErrorCode))
      = (parseInfo w info).map (fun region => (region, { value := code })) := by
    rw [hnative]
    rfl
  by_cases ha : n < a
  · rw [if_pos ha]
    exact hbody
  · rw [if_neg ha]
    refine (congrArg noexcept hbody).trans ?_
    rcases parseInfo_cases w info with ⟨r, hr⟩ | herr
    · rw [hr]
      rfl
    · rw [herr]
      rfl

/-- A system error is that of `VirtualQueryEx`. -/
theorem windowsQuery_systemError {w : Nat} {os : WindowsMemory n} {handle : Int}
    {address : BitVec a} {code : ErrorCode} {what : String}
    (h : windowsQuery w os handle address = .error (.systemError code what)) :
    ∃ addr value, addressCast n address = .ok addr
      ∧ os.virtualQueryEx handle addr = .error value ∧ code = { value } := by
  rcases bind_eq_error h with hcast | ⟨addr, haddr, h⟩
  · exact absurd hcast addressCast_ne_systemError
  rcases bind_eq_error h with hnative | ⟨info, -, hparse⟩
  · rw [nativeQuery] at hnative
    rcases hcall : os.virtualQueryEx handle addr with value | info
    · rw [hcall] at hnative
      obtain ⟨hcode, -⟩ := Exn.systemError.inj (Except.error.inj hnative)
      exact ⟨addr, value, haddr, hcall, hcode.symm⟩
    · rw [hcall] at hnative
      cases hnative
  · rcases parseInfo_cases w info with ⟨r, hr⟩ | herr
    · rw [hr] at hparse
      cases hparse
    · rw [herr] at hparse
      cases hparse

/-- With 64-bit regions `parse_info` returns, with the bounds it was given. -/
theorem parseInfo_64 (info : MemoryBasicInformation) :
    ∃ r, parseInfo 64 info = .ok r ∧ r.beginAddr = info.baseAddress
      ∧ r.endAddr = info.baseAddress + info.regionSize := by
  rw [parseInfo]
  by_cases h : info.state = memFree
  · rw [if_pos h, addressCast_self, addressCast_self]
    exact ⟨_, rfl, rfl, rfl⟩
  · rw [if_neg h, addressCast_self, addressCast_self]
    exact ⟨_, rfl, rfl, rfl⟩

/-- A system call that succeeds leaves the rest to `parse_info`. -/
theorem windowsQuery_of_info {os : WindowsMemory} {handle : Int} {x : BitVec 64}
    {info : MemoryBasicInformation} (hinfo : os.virtualQueryEx handle x = .ok info) :
    windowsQuery 64 os handle x = parseInfo 64 info := by
  rw [windowsQuery, addressCast_self]
  show nativeQuery os handle x >>= parseInfo 64 = _
  rw [nativeQuery, hinfo]
  rfl

/-- **The Windows query answers** at an address if `VirtualQueryEx` describes a
    part of the region of the address that runs to its end. -/
theorem windowsQuery_answers {O : OsLayout 64} {os : WindowsMemory} {handle : Int}
    {x : BitVec 64} {R : OsRegion 64} (hR : R ∈ O.regions) (hc : R.Contains x)
    {info : MemoryBasicInformation} (hinfo : os.virtualQueryEx handle x = .ok info)
    (hbase : R.base ≤ info.baseAddress) (hle : info.baseAddress ≤ x)
    (hend : info.baseAddress + info.regionSize = R.limit) :
    O.Answers (windowsQuery 64 os handle) x := by
  obtain ⟨r, hr, hb, he⟩ := parseInfo_64 info
  refine ⟨R, hR, hc, r, ?_, ?_, ?_, ?_⟩
  · exact (windowsQuery_of_info hinfo).trans hr
  · rw [hb]
    exact hbase
  · rw [hb]
    exact hle
  · rw [he, hend]

end VmUtils
