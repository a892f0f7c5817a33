import VmUtils.QueryRangeUsingQuery

/-! # The macOS queries

    `detail/osx/query.inl`.  `mach_vm_region` answers with the allocated region
    at the address or else with the next one above it; in the latter case `query`
    reports the memory in between as free.  Either way it answers as the loop of
    `query_range` needs it (`osxQuery_answers`). -/

namespace VmUtils

variable {a : Nat}

/-- What `mach_vm_region` returns: the region and the fields of
    `vm_region_extended_info` that the library reads. -/
structure MachRegion where
  base : BitVec 64
  size : BitVec 64
  protection : BitVec 32
  shareMode : Int
  userTag : Int

/-- `mach_vm_region`, which fails with a `kern_return_t`. -/
structure MachMemory where
  machVmRegion : Int → BitVec 64 → Except Int MachRegion
  machTaskSelf : Int

def smShared : Int := 4

def smTrueshared : Int := 5

def smSharedAliased : Int := 7

def vmMemoryGuard : Int := 31

/-- `is_shared`. -/
def isShared (sharing : Int) : Bool :=
  sharing == smShared || sharing == smTrueshared || sharing == smSharedAliased

/-- `query(handle, address)`: `query_impl` with the handler that throws. -/
def osxQuery (w : Nat) (os : MachMemory) (handle : Int) (address : BitVec a) :
    Except Exn (BasicRegion w) := do
  let addr ← addressCast 64 address
  match os.machVmRegion handle addr with
  | .error kr => throw (.systemError { value := kr } "mach_vm_region() failed")
  | .ok info =>
      if addr < info.base then
        -- `mach_vm_region` skipped the free memory at the address
        let lo ← addressCast w address
        let hi ← addressCast w info.base
        return BasicRegion.free lo hi
      else
        return BasicRegion.mapped (addressCastUnchecked w info.base)
          (addressCastUnchecked w (info.base + info.size)) ⟨info.protection⟩
          (isShared info.shareMode) (info.userTag == vmMemoryGuard)

/-- `query(address)`. -/
def osxQueryLocal (w : Nat) (os : MachMemory) (address : BitVec a) : Except Exn (BasicRegion w) :=
  osxQuery w os os.machTaskSelf address

/-- `query(handle, address, ec)`: `query_impl` with the handler that sets `ec`,
    which makes it `noexcept`.  A failure returns the default region. -/
def osxQueryEc (w : Nat) (os : MachMemory) (handle : Int) (address : BitVec a) (ec : ErrorCode) :
    Except Exn (BasicRegion w × ErrorCode) :=
  noexcept do
    let addr ← addressCast 64 address
    match os.machVmRegion handle addr with
    | .error kr => return ({}, { value := kr })
    | .ok info =>
        if addr < info.base then
          let lo ← addressCast w address
          let hi ← addressCast w info.base
          return (BasicRegion.free lo hi, ec)
        else
          return (BasicRegion.mapped (addressCastUnchecked w info.base)
            (addressCastUnchecked w (info.base + info.size)) ⟨info.protection⟩
            (isShared info.shareMode) (info.userTag == vmMemoryGuard), ec)

/-- `query(address, ec)`. -/
def osxQueryLocalEc (w : Nat) (os : MachMemory) (address : BitVec a) (ec : ErrorCode) :
    Except Exn (BasicRegion w × ErrorCode) :=
  osxQueryEc w os os.machTaskSelf address ec

/-- A query that succeeds does so with `ec`, and leaves it alone. -/
theorem osxQueryEc_of_ok {w : Nat} {os : MachMemory} {handle : Int} {address : BitVec a}
    {r : BasicRegion w} (h : osxQuery w os handle address = .ok r) (ec : ErrorCode) :
    osxQueryEc w os handle address ec = .ok (r, ec) := by
  obtain ⟨addr, haddr, h⟩ := bind_eq_ok h
  rw [osxQueryEc, haddr]
  show noexcept (match os.machVmRegion handle addr with | .error kr => _ | .ok info => _) = _
  rcases hinfo : os.machVmRegion handle addr with kr | info
  · rw [hinfo] at h
    exact nomatch h
  · rw [hinfo] at h
    dsimp only at h
    show noexcept (if addr < info.base then _ else _) = _
    by_cases hlt : addr < info.base
    · rw [if_pos hlt] at h ⊢
      obtain ⟨lo, hlo, h⟩ := bind_eq_ok h
      obtain ⟨hi, hhi, h⟩ := bind_eq_ok h
      rw [hlo, hhi]
      obtain rfl := Except.ok.inj h
      rfl
    · rw [if_neg hlt] at h ⊢
      obtain rfl := Except.ok.inj h
      rfl

/-- A query that fails returns the default region. -/
theorem osxQueryEc_of_error {w : Nat} {os : MachMemory} {handle : Int} {address : BitVec a}
    {addr : BitVec 64} {kr : Int} (haddr : addressCast 64 address = .ok addr)
    (hfail : os.machVmRegion handle addr = .error kr) (ec : ErrorCode) :
    osxQueryEc w os handle address ec = .ok ({}, { value := kr }) := by
  rw [osxQueryEc, haddr]
  show noexcept (match os.machVmRegion handle addr with | .error kr => _ | .ok info => _) = _
  rw [hfail]
  rfl

/-- A system error is that of `mach_vm_region`. -/
theorem osxQuery_systemError {w : Nat} {os : MachMemory} {handle : Int} {address : BitVec a}
    {code : ErrorCode} {what : String}
    (h : osxQuery w os handle address = .error (.systemError code what)) :
    ∃ addr kr, addressCast 64 address = .ok addr ∧ os.machVmRegion handle addr = .error kr
      ∧ code = { value := kr } := by
  rcases bind_eq_error h with hcast | ⟨addr, haddr, h⟩
  · exact absurd hcast addressCast_ne_systemError
  rcases hcall : os.machVmRegion handle addr with kr | info
  · rw [hcall] at h
    obtain ⟨hcode, -⟩ := Exn.systemError.inj (Except.error.inj h)
    exact ⟨addr, kr, haddr, hcall, hcode.symm⟩
  · rw [hcall] at h
    dsimp only at h
    by_cases hlt : addr < info.base
    · rw [if_pos hlt] at h
      rcases bind_eq_error h with hcast | ⟨lo, -, h⟩
      · exact absurd hcast addressCast_ne_systemError
      rcases bind_eq_error h with hcast | ⟨hi, -, h⟩
      · exact absurd hcast addressCast_ne_systemError
      cases h
    · rw [if_neg hlt] at h
      cases h

/-- With 64-bit regions no cast of a call that succeeds fails. -/
theorem osxQuery_of_info {os : MachMemory} {handle : Int} {x : BitVec 64} {info : MachRegion}
    (hinfo : os.machVmRegion handle x = .ok info) :
    osxQuery 64 os handle x
      = .ok (if x < info.base then BasicRegion.free x info.base
        else BasicRegion.mapped info.base (info.base + info.size) ⟨info.protection⟩
          (isShared info.shareMode) (info.userTag == vmMemoryGuard)) := by
  rw [osxQuery, addressCast_self]
  show (match os.machVmRegion handle x with | .error kr => _ | .ok info => _) = _
  rw [hinfo]
  show (if x < info.base then _ else _) = _
  by_cases hlt : x < info.base
  · rw [if_pos hlt, if_pos hlt, addressCast_self]
    rfl
  · rw [if_neg hlt, if_neg hlt, addressCastUnchecked_self, addressCastUnchecked_self]
    rfl

/-- **The macOS query answers** at an address if `mach_vm_region` finds the region
    of the address, or else the region that begins where the free memory around
    the address ends. -/
theorem osxQuery_answers {O : OsLayout 64} {os : MachMemory} {handle : Int} {x : BitVec 64}
    {R : OsRegion 64} (hR : R ∈ O.regions) (hc : R.Contains x) {info : MachRegion}
    (hinfo : os.machVmRegion handle x = .ok info)
    (hregion : (R.base ≤ info.base ∧ info.base ≤ x ∧ info.base + info.size = R.limit)
      ∨ info.base = R.limit) : O.Answers (osxQuery 64 os handle) x := by
  refine ⟨R, hR, hc, ?_⟩
  by_cases hlt : x < info.base
  · have hbase : info.base = R.limit := by
      rcases hregion with ⟨-, hle, -⟩ | h
      · exact absurd hlt (Nat.not_lt.mpr hle)
      · exact h
    refine ⟨BasicRegion.free x info.base, ?_, hc.1, Nat.le_refl _, hbase⟩
    rw [osxQuery_of_info hinfo, if_pos hlt]
  · obtain ⟨hb, hle, hend⟩ : R.base ≤ info.base ∧ info.base ≤ x
        ∧ info.base + info.size = R.limit := by
      rcases hregion with h | h
      · exact h
      · rw [h] at hlt
        exact absurd hc.2 hlt
    refine ⟨BasicRegion.mapped info.base (info.base + info.size) ⟨info.protection⟩
      (isShared info.shareMode) (info.userTag == vmMemoryGuard), ?_, hb, hle, hend⟩
    rw [osxQuery_of_info hinfo, if_neg hlt]

end VmUtils
