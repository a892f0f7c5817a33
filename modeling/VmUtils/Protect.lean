import VmUtils.Region

/-! # `protect`

    `detail/posix/protect.inl`, `detail/windows/protect.inl` and the single-page
    overloads of `protect.hpp`, over a system state `σ` that the calls of the
    operating system act on.  A `Platform` is what the rest of the library sees
    of them. -/

namespace VmUtils

variable {σ : Type} {a : Nat}

/-- `throw std::system_error(code, what)` with the system category. -/
def throwSystemError (code : Int) (what : String) : OsM σ Unit :=
  throw (.systemError { value := code } what)

/-! ## POSIX -/

/-- What `protect` asks of a POSIX system.  `mprotect` answers `none` for
    success and otherwise sets `errno`. -/
structure Posix (σ : Type) where
  mprotect : BitVec 64 → BitVec 64 → NativeProtection → StateM σ (Option Int)
  pageSize : BitVec 64

/-- `protect(begin, end, prot)`. -/
def Posix.protect (os : Posix σ) (first last : BitVec a) (prot : Protection) : OsM σ Unit :=
  if first = last then return
  else do
    let lo ← addressCast 64 first
    let address := lo &&& -os.pageSize
    let hi ← addressCast 64 last
    match ← os.mprotect address (hi - address) prot.native with
    | none => return
    | some errno => throwSystemError errno "mprotect() failed"

/-- `protect(begin, end, prot, ec)`: a success leaves `ec` as it was. -/
def Posix.protectEc (os : Posix σ) (first last : BitVec a) (prot : Protection)
    (ec : ErrorCode) : OsM σ ErrorCode :=
  if first = last then return ec
  else do
    let lo ← addressCast 64 first
    let address := lo &&& -os.pageSize
    let hi ← addressCast 64 last
    match ← os.mprotect address (hi - address) prot.native with
    | none => return ec
    | some errno => return { value := errno }

/-! ## 64-bit Windows -/

/-- What `protect` asks of Windows.  The calls answer `none` for success and
    otherwise what `GetLastError` returns. -/
structure Windows (σ : Type) where
  virtualProtect : BitVec 64 → BitVec 64 → NativeProtection → StateM σ (Option Int)
  flushInstructionCache : BitVec 64 → BitVec 64 → StateM σ (Option Int)
  pageSize : BitVec 64

/-- `protect(begin, end, prot)`. -/
def Windows.protect (os : Windows σ) (first last : BitVec a) (prot : Protection) : OsM σ Unit :=
  if first = last then return
  else do
    let hi ← addressCast 64 last
    let lo := addressCastUnchecked 64 first
    let size := hi - lo
    match ← os.virtualProtect lo size prot.native with
    | some code => throwSystemError code "VirtualProtect() failed"
    | none =>
        match ← os.flushInstructionCache lo size with
        | some code => throwSystemError code "FlushInstructionCache() failed"
        | none => return

/-- `protect(begin, end, prot, ec)`. -/
def Windows.protectEc (os : Windows σ) (first last : BitVec a) (prot : Protection)
    (ec : ErrorCode) : OsM σ ErrorCode :=
  if first = last then return ec
  else do
    let hi ← addressCast 64 last
    let lo := addressCastUnchecked 64 first
    let size := hi - lo
    match ← os.virtualProtect lo size prot.native with
    | some code => return { value := code }
    | none =>
        match ← os.flushInstructionCache lo size with
        | some code => return { value := code }
        | none => return ec

/-! ## The platform -/

/-- The system-dependent functions of the library that change protections. -/
structure Platform (σ : Type) where
  /-- Whether `_WIN32` is defined. -/
  win32 : Bool
  pageSize : BitVec 64
  protect : {a : Nat} → BitVec a → BitVec a → Protection → OsM σ Unit
  protectEc : {a : Nat} → BitVec a → BitVec a → Protection → ErrorCode → OsM σ ErrorCode

def Posix.platform (os : Posix σ) : Platform σ where
  win32 := false
  pageSize := os.pageSize
  protect := os.protect
  protectEc := os.protectEc

def Windows.platform (os : Windows σ) : Platform σ where
  win32 := true
  pageSize := os.pageSize
  protect := os.protect
  protectEc := os.protectEc

/-- `fixed_address` of the single-page overloads: rounded down except on
    Windows. -/
def Platform.fixedAddress (P : Platform σ) (address : BitVec a) : BitVec a :=
  if P.win32 then address
  else addressCastUnchecked a (addressCastUnchecked 64 address &&& -P.pageSize)

/-- On POSIX `fixed_address` is the address rounded down. -/
theorem posix_fixedAddress (os : Posix σ) (address : BitVec 64) :
    os.platform.fixedAddress address = address &&& -os.pageSize := by
  rw [Platform.fixedAddress, addressCastUnchecked_self, addressCastUnchecked_self]
  rfl

/-- `protect(address, prot)`. -/
def Platform.protectPage (P : Platform σ) (address : BitVec a) (prot : Protection) : OsM σ Unit :=
  P.protect (P.fixedAddress address) (P.fixedAddress address + 1) prot

/-- `protect(address, prot, ec)`. -/
def Platform.protectPageEc (P : Platform σ) (address : BitVec a) (prot : Protection)
    (ec : ErrorCode) : OsM σ ErrorCode :=
  P.protectEc (P.fixedAddress address) (P.fixedAddress address + 1) prot ec

/-! ## Runs at 64 bits -/

/-- The outcome of `mprotect` as the throwing overload reports it. -/
def mprotectOutcome : Option Int × σ → Except Exn Unit × σ
  | (none, s) => (.ok (), s)
  | (some errno, s) => (.error (.systemError { value := errno } "mprotect() failed"), s)

/-- The outcome of `mprotect` as the `error_code` overload reports it. -/
def mprotectOutcomeEc (ec : ErrorCode) : Option Int × σ → Except Exn ErrorCode × σ
  | (none, s) => (.ok ec, s)
  | (some errno, s) => (.ok { value := errno }, s)

theorem Posix.protect_run (os : Posix σ) (first last : BitVec 64) (prot : Protection) (s : σ) :
    (os.protect first last prot).run s
      = if first = last then (.ok (), s)
        else mprotectOutcome (os.mprotect (first &&& -os.pageSize)
          (last - (first &&& -os.pageSize)) prot.native s) := by
  rw [Posix.protect]
  by_cases h : first = last
  · rw [if_pos h, if_pos h]
    rfl
  · rw [if_neg h, if_neg h, addressCast_self, addressCast_self, run_except, run_except, run_call]
    rcases os.mprotect (first &&& -os.pageSize) (last - (first &&& -os.pageSize)) prot.native s
      with ⟨_ | errno, s'⟩
    · rfl
    · rfl

theorem Posix.protectEc_run (os : Posix σ) (first last : BitVec 64) (prot : Protection)
    (ec : ErrorCode) (s : σ) :
    (os.protectEc first last prot ec).run s
      = if first = last then (.ok ec, s)
        else mprotectOutcomeEc ec (os.mprotect (first &&& -os.pageSize)
          (last - (first &&& -os.pageSize)) prot.native s) := by
  rw [Posix.protectEc]
  by_cases h : first = last
  · rw [if_pos h, if_pos h]
    rfl
  · rw [if_neg h, if_neg h, addressCast_self, addressCast_self, run_except, run_except, run_call]
    rcases os.mprotect (first &&& -os.pageSize) (last - (first &&& -os.pageSize)) prot.native s
      with ⟨_ | errno, s'⟩
    · rfl
    · rfl

/-- The outcome of `FlushInstructionCache` behind a successful `VirtualProtect`. -/
def flushOutcome : Option Int × σ → Except Exn Unit × σ
  | (none, s) => (.ok (), s)
  | (some code, s) =>
      (.error (.systemError { value := code } "FlushInstructionCache() failed"), s)

/-- The outcome of `VirtualProtect`, `flush` being what follows a success. -/
def virtualProtectOutcome (flush : StateM σ (Option Int)) :
    Option Int × σ → Except Exn Unit × σ
  | (none, s) => flushOutcome (flush s)
  | (some code, s) => (.error (.systemError { value := code } "VirtualProtect() failed"), s)

theorem Windows.protect_run (os : Windows σ) (first last : BitVec 64) (prot : Protection) (s : σ) :
    (os.protect first last prot).run s
      = if first = last then (.ok (), s)
        else virtualProtectOutcome (os.flushInstructionCache first (last - first))
          (os.virtualProtect first (last - first) prot.native s) := by
  rw [Windows.protect]
  by_cases h : first = last
  · rw [if_pos h, if_pos h]
    rfl
  · rw [if_neg h, if_neg h, addressCast_self, run_except, addressCastUnchecked_self, run_call]
    rcases os.virtualProtect first (last - first) prot.native s with ⟨_ | code, s'⟩
    · show ((liftM (os.flushInstructionCache first (last - first)) : OsM σ _) >>= _).run s'
        = flushOutcome (os.flushInstructionCache first (last - first) s')
      rw [run_call]
      rcases os.flushInstructionCache first (last - first) s' with ⟨_ | code, s''⟩
      · rfl
      · rfl
    · rfl

/-- The two outcomes as the `error_code` overload reports them. -/
def flushOutcomeEc (ec : ErrorCode) : Option Int × σ → Except Exn ErrorCode × σ
  | (none, s) => (.ok ec, s)
  | (some code, s) => (.ok { value := code }, s)

def virtualProtectOutcomeEc (ec : ErrorCode) (flush : StateM σ (Option Int)) :
    Option Int × σ → Except Exn ErrorCode × σ
  | (none, s) => flushOutcomeEc ec (flush s)
  | (some code, s) => (.ok { value := code }, s)

theorem Windows.protectEc_run (os : Windows σ) (first last : BitVec 64) (prot : Protection)
    (ec : ErrorCode) (s : σ) :
    (os.protectEc first last prot ec).run s
      = if first = last then (.ok ec, s)
        else virtualProtectOutcomeEc ec (os.flushInstructionCache first (last - first))
          (os.virtualProtect first (last - first) prot.native s) := by
  rw [Windows.protectEc]
  by_cases h : first = last
  · rw [if_pos h, if_pos h]
    rfl
  · rw [if_neg h, if_neg h, addressCast_self, run_except, addressCastUnchecked_self, run_call]
    rcases os.virtualProtect first (last - first) prot.native s with ⟨_ | code, s'⟩
    · show ((liftM (os.flushInstructionCache first (last - first)) : OsM σ _) >>= _).run s'
        = flushOutcomeEc ec (os.flushInstructionCache first (last - first) s')
      rw [run_call]
      rcases os.flushInstructionCache first (last - first) s' with ⟨_ | code, s''⟩
      · rfl
      · rfl
    · rfl

end VmUtils
