import Mathlib

/-! # Protections, address casts and regions

    The value types of the library: error codes and exceptions, `protection_t`
    (`protection.hpp`, `posix/protection.inl`), the numbers of `address_cast`
    (`detail/address_cast.hpp`) and `basic_region` (`region.hpp`).  An address
    type is its width: `BitVec 64` for `std::uintptr_t` and `std::uint64_t`. -/

namespace VmUtils

/-- The two error categories the library uses. -/
inductive ErrorCategory where
  | system
  | generic
  deriving DecidableEq, Repr

/-- `std::error_code`. -/
structure ErrorCode where
  value : Int := 0
  category : ErrorCategory := .system
  deriving DecidableEq, Repr

/-- `explicit operator bool`. -/
def ErrorCode.isSet (ec : ErrorCode) : Bool := ec.value != 0

/-- `std::make_error_code(std::errc::io_error)`. -/
def ErrorCode.ioError : ErrorCode := { value := 5, category := .generic }

/-- The ways in which the library's functions end other than by returning. -/
inductive Exn where
  /-- `std::ios_base::failure`, raised by a stream with `exceptions` set. -/
  | iosFailure
  /-- `std::logic_error`. -/
  | logicError (what : String)
  /-- `std::overflow_error`. -/
  | overflowError (what : String)
  /-- `std::system_error`. -/
  | systemError (code : ErrorCode) (what : String)
  /-- `std::terminate`, which cannot be caught. -/
  | terminate
  deriving DecidableEq, Repr

/-- A `noexcept` function: an exception that would leave it ends the program. -/
def noexcept {α : Type} : Except Exn α → Except Exn α
  | .ok x => .ok x
  | .error _ => .error .terminate

/-- A `noexcept` function returns or ends the program. -/
theorem noexcept_cases {α : Type} (x : Except Exn α) :
    (∃ y, noexcept x = .ok y) ∨ noexcept x = .error .terminate := by
  cases x with
  | error e => exact Or.inr rfl
  | ok y => exact Or.inl ⟨y, rfl⟩

/-- A value is returned whether or not the function is `noexcept`. -/
theorem ite_noexcept_of_ok {α : Type} {p : Prop} [Decidable p] {x : Except Exn α} {y : α}
    (h : x = .ok y) : (if p then x else noexcept x) = .ok y := by
  rw [h]
  exact ite_self _

/-- A successful first part of a monadic computation. -/
theorem bind_eq_ok {ε α β : Type} {x : Except ε α} {f : α → Except ε β} {y : β}
    (h : (x >>= f) = .ok y) : ∃ a, x = .ok a ∧ f a = .ok y := by
  cases x with
  | error e => exact nomatch h
  | ok a => exact ⟨a, rfl, h⟩

/-- A monadic computation fails in its first part or in the rest. -/
theorem bind_eq_error {ε α β : Type} {x : Except ε α} {f : α → Except ε β} {e : ε}
    (h : (x >>= f) = .error e) : x = .error e ∨ ∃ a, x = .ok a ∧ f a = .error e := by
  cases x with
  | error e' => exact Or.inl (congrArg Except.error (Except.error.inj h))
  | ok a => exact Or.inr ⟨a, rfl, h⟩

/-- What holds of the one value that is returned beside `ec`. -/
theorem exists_ok_iff {ε α β : Type} {x : α} {ec : β} {P : α → Prop} :
    (∃ y, (Except.ok (x, ec) : Except ε (α × β)) = .ok (y, ec) ∧ P y) ↔ P x := by
  constructor
  · rintro ⟨y, hy, h⟩
    rw [(Prod.mk.inj (Except.ok.inj hy)).1]
    exact h
  · intro h
    exact ⟨x, rfl, h⟩

/-! ## Computations on a system state -/

section

variable {σ : Type}

/-- A computation that acts on the system and may throw.  A throw keeps what
    was done before it. -/
abbrev OsM (σ : Type) := ExceptT Exn (StateM σ)

/-- A `noexcept` function that acts on the system. -/
def OsM.noexcept {α : Type} (m : OsM σ α) : OsM σ α :=
  ExceptT.mk (fun s => (VmUtils.noexcept (m.run s).1, (m.run s).2))

/-- A computation that returns does so also as a `noexcept` function. -/
theorem noexcept_run_ok {α : Type} {m : OsM σ α} {x : α} {s s' : σ} (h : m.run s = (.ok x, s')) :
    (OsM.noexcept m).run s = (.ok x, s') := by
  show (VmUtils.noexcept (m.run s).1, (m.run s).2) = _
  rw [h]
  rfl

/-- A cast that succeeds is no step. -/
theorem run_except {α β : Type} (x : α) (f : α → OsM σ β) (s : σ) :
    ((liftM (Except.ok x : Except Exn α) : OsM σ α) >>= f).run s = (f x).run s := rfl

/-- A system call passes its answer and the new state on. -/
theorem run_call {α β : Type} (call : StateM σ α) (f : α → OsM σ β) (s : σ) :
    ((liftM call : OsM σ α) >>= f).run s = (f (call s).1).run (call s).2 := rfl

/-- A first part that returns passes its value and state on. -/
theorem bind_run_ok {α β : Type} {m : OsM σ α} {x : α} {s s' : σ} (h : m.run s = (.ok x, s'))
    (f : α → OsM σ β) : (m >>= f).run s = (f x).run s' := by
  show ExceptT.bindCont f (m.run s).1 (m.run s).2 = _
  rw [h]
  rfl

/-- A computation that returns has a first part that returns. -/
theorem bind_run_eq_ok {α β : Type} {m : OsM σ α} {f : α → OsM σ β} {y : β} {s s' : σ}
    (h : (m >>= f).run s = (.ok y, s')) :
    ∃ x s₁, m.run s = (.ok x, s₁) ∧ (f x).run s₁ = (.ok y, s') := by
  have h' : ExceptT.bindCont f (m.run s).1 (m.run s).2 = (.ok y, s') := h
  rcases hm : m.run s with ⟨_ | x, s₁⟩
  · rw [hm] at h'
    exact nomatch (Prod.mk.inj h').1
  · rw [hm] at h'
    exact ⟨x, s₁, rfl, h'⟩

/-- A first part that throws ends the computation. -/
theorem bind_run_error {α β : Type} {m : OsM σ α} {e : Exn} {s s' : σ}
    (h : m.run s = (.error e, s')) (f : α → OsM σ β) : (m >>= f).run s = (.error e, s') := by
  show ExceptT.bindCont f (m.run s).1 (m.run s).2 = _
  rw [h]
  rfl

/-- A computation that throws does so in its first or in its second part. -/
theorem bind_run_eq_error {α β : Type} {m : OsM σ α} {f : α → OsM σ β} {e : Exn} {s s' : σ}
    (h : (m >>= f).run s = (.error e, s')) :
    m.run s = (.error e, s')
      ∨ ∃ x s₁, m.run s = (.ok x, s₁) ∧ (f x).run s₁ = (.error e, s') := by
  have h' : ExceptT.bindCont f (m.run s).1 (m.run s).2 = (.error e, s') := h
  rcases hm : m.run s with ⟨e' | x, s₁⟩
  · rw [hm] at h'
    obtain ⟨he, hs⟩ := Prod.mk.inj h'
    obtain rfl := Except.error.inj he
    exact Or.inl (by rw [← hs])
  · rw [hm] at h'
    exact Or.inr ⟨x, s₁, rfl, h'⟩

end

/-! ## Address ranges -/

variable {v w : Nat}

/-- Two address ranges have an address in common. -/
theorem common_address_iff {lo hi lo' hi' : BitVec w} :
    (∃ x, lo ≤ x ∧ x < hi ∧ lo' ≤ x ∧ x < hi')
      ↔ lo < hi ∧ lo < hi' ∧ lo' < hi ∧ lo' < hi' := by
  constructor
  · rintro ⟨x, h1, h2, h3, h4⟩
    exact ⟨Nat.lt_of_le_of_lt h1 h2, Nat.lt_of_le_of_lt h1 h4, Nat.lt_of_le_of_lt h3 h2,
      Nat.lt_of_le_of_lt h3 h4⟩
  · rintro ⟨h1, h2, h3, h4⟩
    -- the greater of the two beginnings
    by_cases h : lo ≤ lo'
    · exact ⟨lo', h, h3, Nat.le_refl _, h4⟩
    · exact ⟨lo, Nat.le_refl _, h1, Nat.le_of_not_le h, h2⟩

/-! ## `address_cast`

    The casts as functions on numbers.  The bytes they copy, those behind a
    target that is smaller than its source included, are in `addressCastIn`. -/

/-- The number `address_cast_unchecked` returns: the low bytes of a little-endian
    address. -/
def addressCastUnchecked (v : Nat) (addr : BitVec w) : BitVec v := addr.setWidth v

/-- The number `address_cast` returns, checked only when the target type is
    narrower. -/
def addressCast (v : Nat) (addr : BitVec w) : Except Exn (BitVec v) :=
  if v < w ∧ (BitVec.allOnes v).toNat < addr.toNat then
    .error (.overflowError "attempt to cast address to type of insufficient size")
  else .ok (addressCastUnchecked v addr)

@[simp] theorem addressCastUnchecked_self (addr : BitVec w) :
    addressCastUnchecked w addr = addr :=
  BitVec.setWidth_eq addr

@[simp] theorem addressCast_self (addr : BitVec w) : addressCast w addr = .ok addr := by
  simp [addressCast]

/-- A cast that fails does so with an overflow error. -/
theorem addressCast_ne_systemError {addr : BitVec w} {code : ErrorCode} {what : String} :
    addressCast v addr ≠ .error (.systemError code what) := by
  intro h
  rw [addressCast] at h
  split at h
  · cases h
  · cases h

/-- An address that fits keeps its number. -/
theorem addressCast_of_lt {addr : BitVec w} (h : addr.toNat < 2 ^ v) :
    addressCast v addr = .ok (addr.setWidth v) ∧ (addr.setWidth v).toNat = addr.toNat := by
  constructor
  · rw [addressCast, if_neg, addressCastUnchecked]
    rintro ⟨-, hlt⟩
    rw [BitVec.toNat_allOnes] at hlt
    omega
  · rw [BitVec.toNat_setWidth, Nat.mod_eq_of_lt h]

/-- An address that does not fit is refused. -/
theorem addressCast_of_le {addr : BitVec w} (h : 2 ^ v ≤ addr.toNat) :
    ∃ what, addressCast v addr = .error (.overflowError what) := by
  refine ⟨_, if_pos ⟨?_, ?_⟩⟩
  · have hlt : 2 ^ v < 2 ^ w := Nat.lt_of_le_of_lt h addr.isLt
    exact (Nat.pow_lt_pow_iff_right (Nat.lt_succ_self 1)).mp hlt
  · have hpos : 0 < 2 ^ v := Nat.two_pow_pos v
    rw [BitVec.toNat_allOnes]
    omega

/-! ## `protection_t` -/

/-- `native_protection_t`. -/
abbrev NativeProtection := BitVec 32

/-- `protection_t`, a wrapper around the native constant. -/
structure Protection where
  native : NativeProtection := 0
  deriving DecidableEq, Repr

/-- `PROT_READ`, the value of `access::read`. -/
def accessRead : NativeProtection := 1

/-- `PROT_WRITE`, the value of `access::write`. -/
def accessWrite : NativeProtection := 2

/-- `PROT_EXEC`, the value of `access::exec`. -/
def accessExec : NativeProtection := 4

/-- `protection_t::readable` on POSIX. -/
def Protection.readable (p : Protection) : Bool := p.native &&& accessRead != 0

/-- `protection_t::writable` on POSIX. -/
def Protection.writable (p : Protection) : Bool := p.native &&& accessWrite != 0

/-- `protection_t::executable` on POSIX. -/
def Protection.executable (p : Protection) : Bool := p.native &&& accessExec != 0

/-- `protection_t::accessible` on POSIX. -/
def Protection.accessible (p : Protection) : Bool := p.native != 0

/-- A combination of `PROT_READ`, `PROT_WRITE` and `PROT_EXEC`. -/
def Protection.IsRwx (p : Protection) : Prop := p.native < 8

instance (p : Protection) : Decidable p.IsRwx :=
  inferInstanceAs (Decidable (p.native < 8))

/-! ## `basic_region` -/

/-- `basic_region<Address>` for addresses of `w` bits. -/
structure BasicRegion (w : Nat) where
  beginAddr : BitVec w := 0
  endAddr : BitVec w := 0
  protection : Protection := {}
  used : Bool := false
  shared : Bool := false
  guarded : Bool := false
  deriving DecidableEq, Repr

/-- The constructor for a region that is not in use. -/
def BasicRegion.free (beginAddr endAddr : BitVec w) : BasicRegion w :=
  { beginAddr, endAddr }

/-- The constructor for a region in use. -/
def BasicRegion.mapped (beginAddr endAddr : BitVec w) (protection : Protection)
    (shared : Bool) (guarded : Bool := false) : BasicRegion w :=
  { beginAddr, endAddr, protection, used := true, shared, guarded }

/-- `begin()`. -/
def BasicRegion.begin (r : BasicRegion w) : BitVec w := r.beginAddr

/-- `end()`: one past the stored `_end`. -/
def BasicRegion.end (r : BasicRegion w) : BitVec w := r.endAddr + 1

/-- `size()`. -/
def BasicRegion.size (r : BasicRegion w) : BitVec w := r.endAddr - r.beginAddr

@[simp] theorem begin_free (b e : BitVec w) : (BasicRegion.free b e).begin = b := rfl

@[simp] theorem end_free (b e : BitVec w) : (BasicRegion.free b e).end = e + 1 := rfl

/-- The address one past the last byte, as `begin() + size()` computes it, is
    the stored `_end`, not `end()`. -/
@[simp] theorem begin_add_size (r : BasicRegion w) : r.begin + r.size = r.endAddr := by
  rw [BasicRegion.begin, BasicRegion.size, BitVec.add_comm, BitVec.sub_add_cancel]

end VmUtils
