import VmUtils.LinuxQuery
import VmUtils.Protect

/-! # `protection_guard`

    `protection_guard.hpp`.  A guard is the vector `_old` of saved entries; the
    constructors fill it from a query and change the protection, the destructor
    replays it from the front and `restore` from the back. -/

namespace VmUtils

variable {σ : Type} {a : Nat}

/-- `old_prot_storage`. -/
structure OldProtStorage where
  beginAddr : BitVec 64
  endAddr : BitVec 64
  prot : NativeProtection
  deriving DecidableEq, Repr

/-- A guard is its vector `_old`. -/
structure ProtectionGuard where
  old : List OldProtStorage
  deriving DecidableEq, Repr

/-- The throwing queries of the own process, with `std::uintptr_t` regions. -/
structure Queries where
  query : {a : Nat} → BitVec a → Except Exn (BasicRegion 64)
  queryRange : {a : Nat} → BitVec a → BitVec a → Except Exn (List (BasicRegion 64))

/-- The Linux queries, while the listing and the stack are those given. -/
def linuxQueries (os : Process) (u : Uninit) : Queries where
  query := queryLocal 64 os u
  queryRange := queryRangeLocal 64 os u

/-- `std::max`. -/
def stdMax (x y : BitVec 64) : BitVec 64 := if x < y then y else x

/-- `std::min`. -/
def stdMin (x y : BitVec 64) : BitVec 64 := if y < x then y else x

/-! ## Construction -/

/-- `protection_guard(address, new_protection)`. -/
def ProtectionGuard.ofPage (P : Platform σ) (Q : Queries) (address : BitVec a)
    (newProtection : Protection) : OsM σ ProtectionGuard := do
  let fixedAddress := addressCastUnchecked 64 address &&& ~~~(P.pageSize - 1)
  let old ← Q.query address
  P.protectPage address newProtection
  return ⟨[⟨fixedAddress, fixedAddress + 1, old.protection.native⟩]⟩

/-- What the range constructor saves of a region: its protection, on the part
    of it inside the range. -/
def savedEntry (first last : BitVec a) (region : BasicRegion 64) : OldProtStorage where
  beginAddr := stdMax region.begin (addressCastUnchecked 64 first)
  endAddr := stdMin region.end (addressCastUnchecked 64 last)
  prot := region.protection.native

/-- `protection_guard(begin, end, new_protection)`. -/
def ProtectionGuard.ofRange (P : Platform σ) (Q : Queries) (first last : BitVec a)
    (newProtection : Protection) : OsM σ ProtectionGuard := do
  let regions ← Q.queryRange first last
  P.protect first last newProtection
  return ⟨regions.map (savedEntry first last)⟩

/-! ## Restoration -/

/-- `~protection_guard()`: errors end up in a local `ec` that nothing reads. -/
def ProtectionGuard.destroy (P : Platform σ) (g : ProtectionGuard) : OsM σ Unit :=
  OsM.noexcept do
    let _ ← g.old.foldlM
      (fun ec ele => P.protectEc ele.beginAddr ele.endAddr ⟨ele.prot⟩ ec) ({} : ErrorCode)
    return

theorem length_dropLast_lt {old : List OldProtStorage} {back : OldProtStorage}
    (h : old.getLast? = some back) : old.dropLast.length < old.length := by
  cases old with
  | nil => exact nomatch h
  | cons e old => simp

/-- `restore()`.  An exception leaves the failing entry and those in front of it
    in the guard. -/
def ProtectionGuard.restore (P : Platform σ) (g : ProtectionGuard) (s : σ) :
    (Except Exn Unit × ProtectionGuard) × σ :=
  match _h : g.old.getLast? with
  | none => ((.ok (), g), s)
  | some back =>
      match (P.protect back.beginAddr back.endAddr ⟨back.prot⟩).run s with
      | (.error e, s') => ((.error e, g), s')
      | (.ok (), s') => restore P ⟨g.old.dropLast⟩ s'
termination_by g.old.length
decreasing_by exact length_dropLast_lt _h

/-- `restore(ec)`, which stops at the first entry after which `ec` is set.  It is
    `noexcept`. -/
def ProtectionGuard.restoreEc (P : Platform σ) (g : ProtectionGuard) (ec : ErrorCode) (s : σ) :
    (Except Exn ErrorCode × ProtectionGuard) × σ :=
  match _h : g.old.getLast? with
  | none => ((.ok ec, g), s)
  | some back =>
      match (P.protectEc back.beginAddr back.endAddr ⟨back.prot⟩ ec).run s with
      | (.error _, s') => ((.error .terminate, g), s')
      | (.ok ec', s') =>
          if ec'.isSet then ((.ok ec', g), s')
          else restoreEc P ⟨g.old.dropLast⟩ ec' s'
termination_by g.old.length
decreasing_by exact length_dropLast_lt _h

/-- `release()`. -/
def ProtectionGuard.release (_g : ProtectionGuard) : ProtectionGuard := ⟨[]⟩

/-! ## The loops entry by entry -/

theorem restore_nil (P : Platform σ) (s : σ) :
    ProtectionGuard.restore P ⟨[]⟩ s = ((.ok (), ⟨[]⟩), s) := by
  rw [ProtectionGuard.restore]
  rfl

theorem restoreEc_nil (P : Platform σ) (ec : ErrorCode) (s : σ) :
    ProtectionGuard.restoreEc P ⟨[]⟩ ec s = ((.ok ec, ⟨[]⟩), s) := by
  rw [ProtectionGuard.restoreEc]
  rfl

/-- One round of `restore()` whose `protect` succeeds. -/
theorem restore_concat {P : Platform σ} {old : List OldProtStorage} {back : OldProtStorage}
    {s s' : σ}
    (h : (P.protect back.beginAddr back.endAddr ⟨back.prot⟩).run s = (.ok (), s')) :
    ProtectionGuard.restore P ⟨old ++ [back]⟩ s = ProtectionGuard.restore P ⟨old⟩ s' := by
  rw [ProtectionGuard.restore]
  split
  · rename_i hnone
    simp at hnone
  · rename_i b hsome
    obtain rfl : back = b := by simpa using hsome
    simp only [h, List.dropLast_concat]

/-- One round of `restore(ec)` whose `protect` leaves `ec` clear. -/
theorem restoreEc_concat {P : Platform σ} {old : List OldProtStorage} {back : OldProtStorage}
    {ec ec' : ErrorCode} {s s' : σ} (hec : ec'.isSet = false)
    (h : (P.protectEc back.beginAddr back.endAddr ⟨back.prot⟩ ec).run s = (.ok ec', s')) :
    ProtectionGuard.restoreEc P ⟨old ++ [back]⟩ ec s
      = ProtectionGuard.restoreEc P ⟨old⟩ ec' s' := by
  rw [ProtectionGuard.restoreEc]
  split
  · rename_i hnone
    simp at hnone
  · rename_i b hsome
    obtain rfl : back = b := by simpa using hsome
    simp [h, hec]

/-- One round of `restore()` whose `protect` throws. -/
theorem restore_concat_error {P : Platform σ} {old : List OldProtStorage} {back : OldProtStorage}
    {ex : Exn} {s s' : σ}
    (h : (P.protect back.beginAddr back.endAddr ⟨back.prot⟩).run s = (.error ex, s')) :
    ProtectionGuard.restore P ⟨old ++ [back]⟩ s = ((.error ex, ⟨old ++ [back]⟩), s') := by
  rw [ProtectionGuard.restore]
  split
  · rename_i hnone
    simp at hnone
  · rename_i b hsome
    obtain rfl : back = b := by simpa using hsome
    simp only [h]

/-- One round of `restore(ec)` behind which `ec` is set. -/
theorem restoreEc_concat_set {P : Platform σ} {old : List OldProtStorage} {back : OldProtStorage}
    {ec ec' : ErrorCode} {s s' : σ} (hec : ec'.isSet = true)
    (h : (P.protectEc back.beginAddr back.endAddr ⟨back.prot⟩ ec).run s = (.ok ec', s')) :
    ProtectionGuard.restoreEc P ⟨old ++ [back]⟩ ec s = ((.ok ec', ⟨old ++ [back]⟩), s') := by
  rw [ProtectionGuard.restoreEc]
  split
  · rename_i hnone
    simp at hnone
  · rename_i b hsome
    obtain rfl : back = b := by simpa using hsome
    simp [h, hec]

end VmUtils
