import VmUtils.Region
import VmUtils.Lib.ByteMemory
import VmUtils.Lib.StoreEffects

/-! # The address casts on bytes

    `address_cast_unchecked` (`detail/uintptr_cast.hpp`) copies the bytes of its
    argument over a zeroed object of the target type, with the size of the
    SOURCE type as the length.  The number that comes out is the right one for
    every pair of sizes, so the byte-level casts refine those on numbers
    (`addressCastIn_yields`); but the copy stays inside the target object only
    when the target is at least as large as the source (`addressCast_law_iff`).
    The casts are computations on a byte memory, which other functions call:
    `addressCastIn_writesOnly` says what a call may write, and
    `addressCastIn_leaves` what a narrowing one leaves behind its target. -/

namespace VmUtils

open ByteMemory StoreEffects

/-- The sizes `_select_uintptr_t` has a type for. -/
inductive AddressSize where
  | four
  | eight
  deriving DecidableEq, Repr

/-- `sizeof(Address)`. -/
@[reducible] def AddressSize.bytes : AddressSize → Nat
  | .four => 4
  | .eight => 8

/-- The width of `as_uintptr_t<Address>`. -/
@[reducible] def AddressSize.bits (s : AddressSize) : Nat := 8 * s.bytes

variable {dst src : AddressSize}

theorem AddressSize.pow_bits (s : AddressSize) : 2 ^ s.bits = 256 ^ s.bytes := by
  rw [AddressSize.bits, Nat.pow_mul]

/-! ## The casts -/

/-- Where a call of `address_cast_unchecked` has its parameter `addr` and its
    local `value`: two objects that do not overlap. -/
structure CastFrame (dst src : AddressSize) where
  value : Nat
  addr : Nat
  disjoint : value + dst.bytes ≤ addr ∨ addr + src.bytes ≤ value

/-- The objects one behind the other, from `c` on, with room for the longer copy. -/
def CastFrame.starting (c : Nat) : CastFrame dst src where
  value := c
  addr := c + dst.bytes + src.bytes
  disjoint := Or.inl (by omega)

/-- The memory on entry: the parameter holds the argument. -/
def CastFrame.enter (f : CastFrame dst src) (ptr : BitVec src.bits) (m : Memory) : Memory :=
  m.store f.addr src.bytes ptr.toNat

/-- `A1 value{ 0 }; std::memcpy(&value, &addr, sizeof(A2))`. -/
def CastFrame.copy (f : CastFrame dst src) (m : Memory) : Memory :=
  (m.store f.value dst.bytes 0).memcpy f.value f.addr src.bytes

/-- `address_cast_unchecked`. -/
def addressCastUncheckedIn (f : CastFrame dst src) (ptr : BitVec src.bits) :
    StateM Memory (BitVec dst.bits) := fun m =>
  let m := f.copy (f.enter ptr m)
  (BitVec.ofNat dst.bits (m.load f.value dst.bytes), m)

/-- `uintptr_cast`. -/
def uintptrCastIn (f : CastFrame src src) (ptr : BitVec src.bits) :
    StateM Memory (BitVec src.bits) :=
  addressCastUncheckedIn f ptr

/-- `_address_cast_checker::check`, selected by the sizes. -/
def addressCastCheckIn (dst : AddressSize) (f : CastFrame src src) (ptr : BitVec src.bits) :
    OsM Memory Unit :=
  if dst.bytes < src.bytes then do
    let p1 ← uintptrCastIn f ptr
    if (BitVec.allOnes dst.bits).toNat < p1.toNat then
      throw (.overflowError "attempt to cast address to type of insufficient size")
    else return
  else return

/-- Where a call of `address_cast` has the objects of the cast in its check and of
    the cast it returns. -/
structure CastFrames (dst src : AddressSize) where
  check : CastFrame src src
  copy : CastFrame dst src

/-- `address_cast`. -/
def addressCastIn (F : CastFrames dst src) (ptr : BitVec src.bits) :
    OsM Memory (BitVec dst.bits) := do
  addressCastCheckIn dst F.check ptr
  addressCastUncheckedIn F.copy ptr

/-! ## The bytes of a copy -/

/-- The zeroed `value` does not reach the parameter. -/
theorem enter_store_addr (f : CastFrame dst src) (ptr : BitVec src.bits) (m : Memory)
    {i : Nat} (hi : i < src.bytes) :
    (f.enter ptr m).store f.value dst.bytes 0 (f.addr + i) = byteOf ptr.toNat i := by
  have hd := f.disjoint
  rw [store_outside (by omega)]
  exact store_inside hi

/-- The copied bytes, those past the end of `value` included. -/
theorem copy_inside (f : CastFrame dst src) (ptr : BitVec src.bits) (m : Memory)
    {i : Nat} (hi : i < src.bytes) :
    f.copy (f.enter ptr m) (f.value + i) = byteOf ptr.toNat i := by
  rw [CastFrame.copy, memcpy_inside hi]
  exact enter_store_addr f ptr m hi

/-- No byte changes outside the longer of the two sizes. -/
theorem copy_outside (f : CastFrame dst src) (m : Memory) {c : Nat}
    (hdst : c < f.value ∨ f.value + dst.bytes ≤ c)
    (hsrc : c < f.value ∨ f.value + src.bytes ≤ c) : f.copy m c = m c := by
  rw [CastFrame.copy, memcpy_outside hsrc, store_outside hdst]

/-- Every byte of `value` is the byte of the argument, or zero past its end,
    which is the argument's byte there as well. -/
theorem copy_value (f : CastFrame dst src) (ptr : BitVec src.bits) (m : Memory)
    {i : Nat} (hi : i < dst.bytes) :
    f.copy (f.enter ptr m) (f.value + i) = byteOf ptr.toNat i := by
  by_cases hsrc : i < src.bytes
  · exact copy_inside f ptr m hsrc
  · -- past the argument the byte is the zero of the initialiser
    have hlt : ptr.toNat < 256 ^ src.bytes := by
      rw [← src.pow_bits]
      exact ptr.isLt
    rw [CastFrame.copy, memcpy_outside (by omega), store_inside hi, byteOf_of_zero,
      byteOf_of_lt hlt (by omega)]

/-! ## Refinement of the casts on numbers -/

/-- The bytes of `value` are those of the number cast without a check. -/
theorem addressCastUncheckedIn_fst (f : CastFrame dst src) (ptr : BitVec src.bits)
    (m : Memory) :
    (addressCastUncheckedIn f ptr m).1 = addressCastUnchecked dst.bits ptr := by
  apply BitVec.eq_of_toNat_eq
  have hload : (f.copy (f.enter ptr m)).load f.value dst.bytes = ptr.toNat % 256 ^ dst.bytes :=
    load_eq_mod (fun i hi => copy_value f ptr m hi)
  rw [addressCastUncheckedIn, addressCastUnchecked, BitVec.toNat_ofNat, BitVec.toNat_setWidth,
    hload, dst.pow_bits, Nat.mod_mod]

/-- So the call yields that number. -/
theorem addressCastUncheckedIn_yields (f : CastFrame dst src) (ptr : BitVec src.bits) :
    Yields (liftM (addressCastUncheckedIn f ptr) : OsM Memory (BitVec dst.bits))
      (.ok (addressCastUnchecked dst.bits ptr)) := by
  intro m
  show Except.ok (addressCastUncheckedIn f ptr m).1 = _
  rw [addressCastUncheckedIn_fst]

/-- `uintptr_cast` keeps the number. -/
theorem uintptrCastIn_yields (f : CastFrame src src) (ptr : BitVec src.bits) :
    Yields (liftM (uintptrCastIn f ptr) : OsM Memory (BitVec src.bits)) (.ok ptr) := by
  have h := addressCastUncheckedIn_yields f ptr
  rw [addressCastUnchecked_self] at h
  exact h

/-- The sizes order the widths. -/
theorem AddressSize.bits_lt : dst.bits < src.bits ↔ dst.bytes < src.bytes := by
  rw [AddressSize.bits, AddressSize.bits]
  omega

/-- The check on numbers. -/
def addressCheck (v : Nat) {w : Nat} (addr : BitVec w) : Except Exn Unit :=
  if v < w ∧ (BitVec.allOnes v).toNat < addr.toNat then
    .error (.overflowError "attempt to cast address to type of insufficient size")
  else .ok ()

theorem addressCast_eq_check (v : Nat) {w : Nat} (addr : BitVec w) :
    addressCast v addr = addressCheck v addr >>= fun _ => .ok (addressCastUnchecked v addr) := by
  rw [addressCast, addressCheck]
  split
  · rfl
  · rfl

theorem addressCastCheckIn_yields (dst : AddressSize) (f : CastFrame src src)
    (ptr : BitVec src.bits) :
    Yields (addressCastCheckIn dst f ptr) (addressCheck dst.bits ptr) := by
  rw [addressCastCheckIn, addressCheck]
  by_cases hsize : dst.bytes < src.bytes
  · rw [if_pos hsize]
    refine (uintptrCastIn_yields f ptr).bind
      (g := fun p1 => if dst.bits < src.bits ∧ (BitVec.allOnes dst.bits).toNat < p1.toNat then
        .error (.overflowError "attempt to cast address to type of insufficient size")
        else .ok ()) ?_
    intro p1 _
    by_cases hbig : (BitVec.allOnes dst.bits).toNat < p1.toNat
    · rw [if_pos hbig, if_pos ⟨AddressSize.bits_lt.mpr hsize, hbig⟩]
      exact yields_throw _
    · rw [if_neg hbig, if_neg (fun h => hbig h.2)]
      exact yields_pure ()
  · rw [if_neg hsize, if_neg (fun h => hsize (AddressSize.bits_lt.mp h.1))]
    exact yields_pure ()

/-- **Refinement.**  The cast on bytes ends as the cast on numbers does. -/
theorem addressCastIn_yields (F : CastFrames dst src) (ptr : BitVec src.bits) :
    Yields (addressCastIn F ptr) (addressCast dst.bits ptr) := by
  rw [addressCast_eq_check]
  exact (addressCastCheckIn_yields dst F.check ptr).bind
    (fun _ _ => addressCastUncheckedIn_yields F.copy ptr)

/-! ## What a cast promises -/

/-- `address_cast` throws exactly for numbers above the target's maximum, and
    returns all others unchanged. -/
def CastsByNumber (dst : AddressSize) (ptr : BitVec src.bits) : Prop :=
  ∀ (F : CastFrames dst src) (m : Memory),
    ((∃ what, ((addressCastIn F ptr).run m).1 = .error (.overflowError what))
      ↔ 2 ^ dst.bits - 1 < ptr.toNat)
    ∧ (ptr.toNat ≤ 2 ^ dst.bits - 1 →
        ∃ v, ((addressCastIn F ptr).run m).1 = .ok v ∧ v.toNat = ptr.toNat)

/-- The copy in `address_cast_unchecked` changes no byte outside `value`. -/
def CopiesInside (dst : AddressSize) (ptr : BitVec src.bits) : Prop :=
  ∀ (f : CastFrame dst src) (m : Memory) (c : Nat), c < f.value ∨ f.value + dst.bytes ≤ c →
    (addressCastUncheckedIn f ptr m).2 c = f.enter ptr m c

/-- The number is right for every pair of sizes. -/
theorem castsByNumber (dst : AddressSize) (ptr : BitVec src.bits) : CastsByNumber dst ptr := by
  intro F m
  have hpos : 0 < 2 ^ dst.bits := Nat.two_pow_pos _
  rw [addressCastIn_yields F ptr m]
  rcases Nat.lt_or_ge ptr.toNat (2 ^ dst.bits) with hlt | hle
  · obtain ⟨hok, hnum⟩ := addressCast_of_lt hlt
    rw [hok]
    refine ⟨⟨?_, fun hbig => by omega⟩, fun _ => ⟨_, rfl, hnum⟩⟩
    rintro ⟨what, h⟩
    cases h
  · obtain ⟨what, herr⟩ := addressCast_of_le hle
    rw [herr]
    exact ⟨⟨fun _ => by omega, fun _ => ⟨what, rfl⟩⟩, fun hfit => by omega⟩

/-- The bytes behind a smaller target are overwritten with the argument's. -/
theorem not_copiesInside (ptr : BitVec src.bits) (h : dst.bytes < src.bytes) :
    ¬ CopiesInside dst ptr := by
  intro hin
  -- the byte right behind `value`, with contents that differ from the argument's byte
  let f : CastFrame dst src := CastFrame.starting 0
  let b : BitVec 8 := byteOf ptr.toNat dst.bytes
  have hkept := hin f (fun _ => b + 1) dst.bytes (Or.inr (Nat.zero_add _).le)
  have hcopied : (addressCastUncheckedIn f ptr (fun _ => b + 1)).2 dst.bytes = b := by
    have hc := copy_inside f ptr (fun _ => b + 1) h
    rwa [show f.value + dst.bytes = dst.bytes from Nat.zero_add _] at hc
  have hbefore : f.enter ptr (fun _ => b + 1) dst.bytes = b + 1 :=
    store_outside (Or.inl (by show dst.bytes < 0 + dst.bytes + src.bytes; omega))
  rw [hcopied, hbefore] at hkept
  bv_omega

/-- A target that is at least as large takes the whole copy. -/
theorem copiesInside (ptr : BitVec src.bits) (h : src.bytes ≤ dst.bytes) :
    CopiesInside dst ptr := by
  intro f m c hc
  exact copy_outside f _ hc (hc.imp_right (fun hle => by omega))

/-- **The cast law.**  The number comes out right and the copy stays inside the
    target exactly when the target is no smaller than the source. -/
theorem addressCast_law_iff (dst src : AddressSize) (ptr : BitVec src.bits) :
    CastsByNumber dst ptr ∧ CopiesInside dst ptr ↔ src.bytes ≤ dst.bytes := by
  constructor
  · rintro ⟨-, hin⟩
    by_contra hlt
    exact not_copiesInside ptr (Nat.lt_of_not_le hlt) hin
  · intro hle
    exact ⟨castsByNumber dst ptr, copiesInside ptr hle⟩

/-- Narrowing `0x1000` from eight bytes to four returns `0x1000` and clears the
    four bytes behind the result. -/
theorem addressCast_overrun :
    ¬ (CastsByNumber .four (0x1000 : BitVec AddressSize.eight.bits)
      ∧ CopiesInside .four (0x1000 : BitVec AddressSize.eight.bits)) := by
  rintro ⟨-, hin⟩
  let f : CastFrame .four .eight := { value := 0x100, addr := 0x200, disjoint := by decide }
  have hkept := hin f (fun _ => 0xFF) 0x104 (by decide)
  exact absurd hkept (by decide)

/-! ## Calls of a cast -/

/-- The bytes of the two objects. -/
def CastFrame.Covers (f : CastFrame dst src) (c : Nat) : Prop :=
  (f.value ≤ c ∧ c < f.value + dst.bytes) ∨ (f.addr ≤ c ∧ c < f.addr + src.bytes)

/-- The bytes a call writes: those of the objects, and those the copy reaches. -/
def CastFrame.Writes (f : CastFrame dst src) (c : Nat) : Prop :=
  f.Covers c ∨ (f.value ≤ c ∧ c < f.value + src.bytes)

instance (f : CastFrame dst src) (c : Nat) : Decidable (f.Covers c) :=
  inferInstanceAs (Decidable (_ ∨ _))

instance (f : CastFrame dst src) (c : Nat) : Decidable (f.Writes c) :=
  inferInstanceAs (Decidable (_ ∨ _))

/-- The bytes of the objects of a call of `address_cast`. -/
def CastFrames.Covers (F : CastFrames dst src) (c : Nat) : Prop :=
  F.check.Covers c ∨ F.copy.Covers c

/-- The bytes a call of `address_cast` writes. -/
def CastFrames.Writes (F : CastFrames dst src) (c : Nat) : Prop :=
  F.check.Writes c ∨ F.copy.Writes c

instance (F : CastFrames dst src) (c : Nat) : Decidable (F.Covers c) :=
  inferInstanceAs (Decidable (_ ∨ _))

instance (F : CastFrames dst src) (c : Nat) : Decidable (F.Writes c) :=
  inferInstanceAs (Decidable (_ ∨ _))

/-- A target that is at least as large takes all the bytes. -/
theorem CastFrame.covers_of_writes (f : CastFrame dst src) (h : src.bytes ≤ dst.bytes) {c : Nat}
    (hc : f.Writes c) : f.Covers c := by
  rcases hc with hc | ⟨hlo, hhi⟩
  · exact hc
  · exact Or.inl ⟨hlo, by omega⟩

theorem addressCastUncheckedIn_writesOnly (f : CastFrame dst src) (ptr : BitVec src.bits) :
    WritesOnly f.Writes (liftM (addressCastUncheckedIn f ptr) : OsM Memory (BitVec dst.bits)) := by
  intro m c hc
  rw [CastFrame.Writes, CastFrame.Covers] at hc
  show f.copy (f.enter ptr m) c = m c
  rw [copy_outside f _ (by omega) (by omega), CastFrame.enter, store_outside (by omega)]

theorem uintptrCastIn_writesOnly (f : CastFrame src src) (ptr : BitVec src.bits) :
    WritesOnly f.Covers (liftM (uintptrCastIn f ptr) : OsM Memory (BitVec src.bits)) :=
  (addressCastUncheckedIn_writesOnly f ptr).mono
    (fun _ hc => f.covers_of_writes (Nat.le_refl _) hc)

/-- The check copies between objects of one size. -/
theorem addressCastCheckIn_writesOnly (dst : AddressSize) (f : CastFrame src src)
    (ptr : BitVec src.bits) : WritesOnly f.Covers (addressCastCheckIn dst f ptr) := by
  rw [addressCastCheckIn]
  by_cases hsize : dst.bytes < src.bytes
  · rw [if_pos hsize]
    refine (uintptrCastIn_writesOnly f ptr).bind (fun p1 _ _ => ?_)
    split
    · exact writesOnly_throw _
    · exact writesOnly_pure ()
  · rw [if_neg hsize]
    exact writesOnly_pure ()

theorem addressCastIn_writesOnly (F : CastFrames dst src) (ptr : BitVec src.bits) :
    WritesOnly F.Writes (addressCastIn F ptr) :=
  ((addressCastCheckIn_writesOnly dst F.check ptr).mono
      (fun _ hc => Or.inl (Or.inl hc))).bind
    (fun _ _ _ => (addressCastUncheckedIn_writesOnly F.copy ptr).mono (fun _ hc => Or.inr hc))

/-- A cast to a type that is no smaller writes its objects only, and so does one
    that throws. -/
theorem addressCastIn_inside (F : CastFrames dst src) (ptr : BitVec src.bits)
    (h : src.bytes ≤ dst.bytes ∨ 2 ^ dst.bits ≤ ptr.toNat) :
    WritesOnly F.Covers (addressCastIn F ptr) := by
  refine ((addressCastCheckIn_writesOnly dst F.check ptr).mono (fun _ hc => Or.inl hc)).bind ?_
  intro _ m hok
  rcases h with hsize | hbig
  · exact (addressCastUncheckedIn_writesOnly F.copy ptr).mono
      (fun _ hc => Or.inr (F.copy.covers_of_writes hsize hc))
  · -- the check throws in front of the copy
    rw [addressCastCheckIn_yields dst F.check ptr m] at hok
    obtain ⟨what, herr⟩ := addressCast_of_le hbig
    rw [addressCast_eq_check, hok] at herr
    cases herr

/-- A cast that does not fit throws. -/
theorem addressCastIn_yields_error (F : CastFrames dst src) {ptr : BitVec src.bits}
    (h : 2 ^ dst.bits ≤ ptr.toNat) :
    ∃ what, Yields (addressCastIn F ptr) (.error (.overflowError what)) := by
  obtain ⟨what, herr⟩ := addressCast_of_le h
  have hyields := addressCastIn_yields F ptr
  rw [herr] at hyields
  exact ⟨what, hyields⟩

/-- A cast to the same size returns the address, -/
theorem addressCastIn_self (F : CastFrames src src) (ptr : BitVec src.bits) :
    Yields (addressCastIn F ptr) (.ok ptr) := by
  have hyields := addressCastIn_yields F ptr
  rw [addressCast_self] at hyields
  exact hyields

/-- and writes its objects only. -/
theorem addressCastIn_self_writesOnly (F : CastFrames src src) (ptr : BitVec src.bits) :
    WritesOnly F.Covers (addressCastIn F ptr) :=
  addressCastIn_inside F ptr (Or.inl (Nat.le_refl _))

/-- A narrowing copy of a number that fits leaves zeros behind its target. -/
theorem addressCastUncheckedIn_leaves (f : CastFrame dst src) {ptr : BitVec src.bits}
    (h : ptr.toNat < 2 ^ dst.bits) {i : Nat} (hdst : dst.bytes ≤ i) (hsrc : i < src.bytes) :
    Leaves (f.value + i) 0
      (liftM (addressCastUncheckedIn f ptr) : OsM Memory (BitVec dst.bits)) := by
  intro m
  show f.copy (f.enter ptr m) (f.value + i) = 0
  rw [copy_inside f ptr m hsrc]
  rw [dst.pow_bits] at h
  exact byteOf_of_lt h hdst

/-- So does a narrowing cast that returns. -/
theorem addressCastIn_leaves (F : CastFrames dst src) {ptr : BitVec src.bits}
    (h : ptr.toNat < 2 ^ dst.bits) {i : Nat} (hdst : dst.bytes ≤ i) (hsrc : i < src.bytes) :
    Leaves (F.copy.value + i) 0 (addressCastIn F ptr) := by
  have hcheck : addressCheck dst.bits ptr = .ok () := by
    rw [addressCheck, if_neg]
    rintro ⟨-, hbig⟩
    rw [BitVec.toNat_allOnes] at hbig
    omega
  have hyields := addressCastCheckIn_yields dst F.check ptr
  rw [hcheck] at hyields
  exact Leaves.after hyields (addressCastUncheckedIn_leaves F.copy h hdst hsrc)

end VmUtils
