import VmUtils.LinuxQueryBytes
import VmUtils.WindowsQuery

/-! # The Windows queries on bytes

    `parse_info`, `query(handle, address, ec)` and the queries of `wow64_query` with
    their address casts as the copies they are.  They end as the queries on numbers
    do.  A region with narrower addresses than the system is copied past its target
    by `parse_info` (`parseInfoIn_leaves`), and so is the pointer of `wow64_query`,
    which takes eight bytes (`wow64QueryIn_leaves`). -/

namespace VmUtils

open ByteMemory StoreEffects

variable {dst ptr src : AddressSize}

theorem yields_noexcept {σ α : Type} {m : OsM σ α} {x : Except Exn α} (h : Yields m x) :
    Yields (OsM.noexcept m) (noexcept x) :=
  fun s => congrArg noexcept (h s)

theorem writesOnly_noexcept {α : Type} {P : Nat → Prop} {m : OsM Memory α}
    (h : WritesOnly P m) : WritesOnly P (OsM.noexcept m) := h

theorem leaves_noexcept {α : Type} {i : Nat} {b : BitVec 8} {m : OsM Memory α}
    (h : Leaves i b m) : Leaves i b (OsM.noexcept m) := h

/-! ## `parse_info` -/

/-- Where the casts of `parse_info` have their objects. -/
structure ParseFrames (dst ptr : AddressSize) where
  base : CastFrame ptr ptr
  size : CastFrame ptr ptr
  bounds : BoundFrames dst ptr

def ParseFrames.Covers (F : ParseFrames dst ptr) (c : Nat) : Prop :=
  F.base.Covers c ∨ F.size.Covers c ∨ F.bounds.Covers c

instance (F : ParseFrames dst ptr) (c : Nat) : Decidable (F.Covers c) :=
  inferInstanceAs (Decidable (_ ∨ _))

/-- `parse_info`, a `noexcept` function. -/
def parseInfoIn (F : ParseFrames dst ptr) (info : MemoryBasicInformation ptr.bits) :
    OsM Memory (BasicRegion dst.bits) :=
  OsM.noexcept do
    let base ← uintptrCastIn F.base info.baseAddress
    let size ← uintptrCastIn F.size info.regionSize
    let last := base + size
    if info.state = memFree then
      let (lo, hi) ← castBoundsIn F.bounds info.baseAddress last
      return BasicRegion.free lo hi
    else
      let (lo, hi) ← castBoundsIn F.bounds info.baseAddress last
      return BasicRegion.mapped lo hi ⟨if info.state = memReserve then noAccess else info.protect⟩
        (info.type &&& memPrivate == 0) (info.protect &&& pageGuard != 0)

/-- The region `parse_info` makes of the bounds. -/
def MemoryBasicInformation.region {n w : Nat} (info : MemoryBasicInformation n)
    (b : BitVec w × BitVec w) : BasicRegion w :=
  if info.state = memFree then BasicRegion.free b.1 b.2
  else BasicRegion.mapped b.1 b.2 ⟨if info.state = memReserve then noAccess else info.protect⟩
    (info.type &&& memPrivate == 0) (info.protect &&& pageGuard != 0)

/-- The two casts of a bound in front of the casts of the list. -/
theorem parseInfoIn_eq (F : ParseFrames dst ptr) (info : MemoryBasicInformation ptr.bits) :
    parseInfoIn F info = OsM.noexcept (do
      let base ← uintptrCastIn F.base info.baseAddress
      let size ← uintptrCastIn F.size info.regionSize
      let b ← castBoundsIn F.bounds info.baseAddress (base + size)
      return info.region b : OsM Memory (BasicRegion dst.bits)) := by
  rw [parseInfoIn]
  by_cases h : info.state = memFree
  · simp only [if_pos h, MemoryBasicInformation.region]
  · simp only [if_neg h, MemoryBasicInformation.region]

theorem parseInfo_eq (w : Nat) {n : Nat} (info : MemoryBasicInformation n) :
    parseInfo w info = noexcept (do
      let lo ← addressCast w info.baseAddress
      let hi ← addressCast w (info.baseAddress + info.regionSize)
      return info.region (lo, hi)) := by
  rw [parseInfo]
  by_cases h : info.state = memFree
  · simp only [if_pos h, MemoryBasicInformation.region]
  · simp only [if_neg h, MemoryBasicInformation.region]

/-- **Refinement.**  `parse_info` on bytes ends as on numbers. -/
theorem parseInfoIn_yields (F : ParseFrames dst ptr) (info : MemoryBasicInformation ptr.bits) :
    Yields (parseInfoIn F info) (parseInfo dst.bits info) := by
  rw [parseInfoIn_eq, parseInfo_eq]
  refine yields_noexcept ?_
  have h := (uintptrCastIn_yields F.base info.baseAddress).bind (fun base _ =>
    (uintptrCastIn_yields F.size info.regionSize).bind (fun size _ =>
      (castBoundsIn_yields F.bounds info.baseAddress (base + size)).bind (fun b _ =>
        yields_pure (info.region b))))
  have hcast : (do
      let lo ← addressCast dst.bits info.baseAddress
      let hi ← addressCast dst.bits (info.baseAddress + info.regionSize)
      return info.region (lo, hi)) = (do
      let lo ← addressCast dst.bits info.baseAddress
      let hi ← addressCast dst.bits (info.baseAddress + info.regionSize)
      return (lo, hi)) >>= fun b => (.ok (info.region b) : Except Exn (BasicRegion dst.bits)) := by
    cases addressCast dst.bits info.baseAddress with
    | error e => rfl
    | ok lo => cases addressCast dst.bits (info.baseAddress + info.regionSize) <;> rfl
  rw [hcast]
  exact h

/-- A base address that fits is copied into a smaller target. -/
theorem parseInfoIn_leaves (F : ParseFrames dst ptr) {info : MemoryBasicInformation ptr.bits}
    (h : info.baseAddress.toNat < 2 ^ dst.bits) {i : Nat} (hdst : dst.bytes ≤ i)
    (hptr : i < ptr.bytes) (hupper : ¬ F.bounds.upper.Writes (F.bounds.lower.copy.value + i)) :
    Leaves (F.bounds.lower.copy.value + i) 0 (parseInfoIn F info) := by
  rw [parseInfoIn_eq]
  exact leaves_noexcept (Leaves.after (uintptrCastIn_yields F.base info.baseAddress)
    (Leaves.after (uintptrCastIn_yields F.size info.regionSize)
      ((castBoundsIn_leaves F.bounds h _ hdst hptr hupper).bind (fun _ => keeps_pure _))))

/-- A base address that does not fit ends the program. -/
theorem parseInfo_of_base {w n : Nat} {info : MemoryBasicInformation n}
    (h : 2 ^ w ≤ info.baseAddress.toNat) : parseInfo w info = .error .terminate := by
  obtain ⟨what, herr⟩ := addressCast_of_le h
  rw [parseInfo_eq, herr]
  rfl

/-! ## 64-bit Windows -/

/-- Where the casts of a query have their objects. -/
structure WindowsQueryFrames (dst ptr src : AddressSize) where
  address : CastFrames ptr src
  parse : ParseFrames dst ptr

def WindowsQueryFrames.Covers (F : WindowsQueryFrames dst ptr src) (c : Nat) : Prop :=
  F.address.Covers c ∨ F.parse.Covers c

instance (F : WindowsQueryFrames dst ptr src) (c : Nat) : Decidable (F.Covers c) :=
  inferInstanceAs (Decidable (_ ∨ _))

/-- `query_impl` with `native_query` and `ec`, `noexcept` if the cast of the
    address is not checked. -/
def windowsQueryEcIn (F : WindowsQueryFrames dst ptr src) (os : WindowsMemory ptr.bits)
    (info : MemoryBasicInformation ptr.bits) (handle : Int) (address : BitVec src.bits)
    (ec : ErrorCode) : OsM Memory (BasicRegion dst.bits × ErrorCode) :=
  let body : OsM Memory (BasicRegion dst.bits × ErrorCode) := do
    let addr ← addressCastIn F.address address
    let (info, ec) := nativeQueryEc os info handle addr ec
    let region ← parseInfoIn F.parse info
    return (region, ec)
  if ptr.bytes < src.bytes then body else OsM.noexcept body

/-- **Refinement.**  The query on bytes ends as the query on numbers does. -/
theorem windowsQueryEcIn_yields (F : WindowsQueryFrames dst ptr src) (os : WindowsMemory ptr.bits)
    (info : MemoryBasicInformation ptr.bits) (handle : Int) (a : BitVec src.bits)
    (ec : ErrorCode) :
    Yields (windowsQueryEcIn F os info handle a ec)
      (windowsQueryEc dst.bits os info handle a ec) := by
  rw [windowsQueryEcIn, windowsQueryEc]
  have hbody := (addressCastIn_yields F.address a).bind (fun addr _ =>
    (parseInfoIn_yields F.parse (nativeQueryEc os info handle addr ec).1).bind (fun region _ =>
      yields_pure (region, (nativeQueryEc os info handle addr ec).2)))
  by_cases hsize : ptr.bytes < src.bytes
  · rw [if_pos hsize, if_pos (AddressSize.bits_lt.mpr hsize)]
    exact hbody
  · rw [if_neg hsize, if_neg (fun h => hsize (AddressSize.bits_lt.mp h))]
    exact yields_noexcept hbody

/-- With 64-bit addresses the query is `parse_info` behind the system call. -/
theorem windowsQueryEcIn_leaves {i : Nat} {b : BitVec 8}
    (F : WindowsQueryFrames dst .eight .eight) {os : WindowsMemory}
    {info : MemoryBasicInformation} {handle : Int} {a : BitVec 64} {ec : ErrorCode}
    (h : Leaves i b (parseInfoIn F.parse (nativeQueryEc os info handle a ec).1)) :
    Leaves i b (windowsQueryEcIn F os info handle a ec) := by
  rw [windowsQueryEcIn, if_neg (Nat.lt_irrefl _)]
  exact leaves_noexcept (Leaves.after (addressCastIn_self F.address a)
    (h.bind (fun _ => keeps_pure _)))

/-! ## 32-bit Windows -/

/-- `wow64_query::query(handle, address)`. -/
def wow64QueryIn (f : CastFrame .four .eight) (os : WindowsMemory 32) (handle : Int)
    (address : BitVec 64) : OsM Memory (MemoryBasicInformation 32) :=
  if 0xffffffff ≤ address then throw (.logicError "not implemented")
  else do
    let p ← addressCastUncheckedIn f address
    nativeQuery os handle p

/-- `wow64_query::query(handle, address, ec)`. -/
def wow64QueryEcIn (f : CastFrame .four .eight) (os : WindowsMemory 32)
    (info : MemoryBasicInformation 32) (handle : Int) (address : BitVec 64) (ec : ErrorCode) :
    OsM Memory (MemoryBasicInformation 32 × ErrorCode) :=
  if 0xffffffff ≤ address then throw (.logicError "not implemented")
  else do
    let p ← addressCastUncheckedIn f address
    return nativeQueryEc os info handle p ec

/-- Where the casts of a remote query have their objects. -/
structure Wow64QueryFrames (dst src : AddressSize) where
  address : CastFrames .eight src
  pointer : CastFrame .four .eight
  parse : ParseFrames dst .four

def Wow64QueryFrames.Covers (F : Wow64QueryFrames dst src) (c : Nat) : Prop :=
  F.address.Covers c ∨ F.pointer.Covers c ∨ F.parse.Covers c

instance (F : Wow64QueryFrames dst src) (c : Nat) : Decidable (F.Covers c) :=
  inferInstanceAs (Decidable (_ ∨ _))

/-- `query_impl` with `wow64_query`. -/
def wow64RemoteQueryIn (F : Wow64QueryFrames dst src) (os : WindowsMemory 32) (handle : Int)
    (address : BitVec src.bits) : OsM Memory (BasicRegion dst.bits) := do
  let addr ← addressCastIn F.address address
  let info ← wow64QueryIn F.pointer os handle addr
  parseInfoIn F.parse info

/-- `query_impl` with `wow64_query` and `ec`. -/
def wow64RemoteQueryEcIn (F : Wow64QueryFrames dst src) (os : WindowsMemory 32)
    (info : MemoryBasicInformation 32) (handle : Int) (address : BitVec src.bits)
    (ec : ErrorCode) : OsM Memory (BasicRegion dst.bits × ErrorCode) :=
  let body : OsM Memory (BasicRegion dst.bits × ErrorCode) := do
    let addr ← addressCastIn F.address address
    let (info, ec) ← wow64QueryEcIn F.pointer os info handle addr ec
    let region ← parseInfoIn F.parse info
    return (region, ec)
  if AddressSize.eight.bytes < src.bytes then body else OsM.noexcept body

theorem wow64QueryIn_yields (f : CastFrame .four .eight) (os : WindowsMemory 32) (handle : Int)
    (x : BitVec 64) : Yields (wow64QueryIn f os handle x) (wow64Query os handle x) := by
  rw [wow64QueryIn, wow64Query]
  by_cases h : 0xffffffff ≤ x
  · rw [if_pos h, if_pos h]
    exact yields_throw _
  · rw [if_neg h, if_neg h]
    exact (addressCastUncheckedIn_yields f x).bind
      (fun p _ => yields_lift (nativeQuery os handle p))

theorem wow64QueryEcIn_yields (f : CastFrame .four .eight) (os : WindowsMemory 32)
    (info : MemoryBasicInformation 32) (handle : Int) (x : BitVec 64) (ec : ErrorCode) :
    Yields (wow64QueryEcIn f os info handle x ec) (wow64QueryEc os info handle x ec) := by
  rw [wow64QueryEcIn, wow64QueryEc]
  by_cases h : 0xffffffff ≤ x
  · rw [if_pos h, if_pos h]
    exact yields_throw _
  · rw [if_neg h, if_neg h]
    exact (addressCastUncheckedIn_yields f x).bind (fun p _ =>
      yields_pure (nativeQueryEc os info handle p ec))

/-- **Refinement.**  The remote query on bytes ends as the one on numbers does. -/
theorem wow64RemoteQueryIn_yields (F : Wow64QueryFrames dst src) (os : WindowsMemory 32)
    (handle : Int) (a : BitVec src.bits) :
    Yields (wow64RemoteQueryIn F os handle a) (wow64RemoteQuery dst.bits os handle a) :=
  (addressCastIn_yields F.address a).bind (fun addr _ =>
    (wow64QueryIn_yields F.pointer os handle addr).bind (fun info _ =>
      parseInfoIn_yields F.parse info))

theorem wow64RemoteQueryEcIn_yields (F : Wow64QueryFrames dst src) (os : WindowsMemory 32)
    (info : MemoryBasicInformation 32) (handle : Int) (a : BitVec src.bits) (ec : ErrorCode) :
    Yields (wow64RemoteQueryEcIn F os info handle a ec)
      (wow64RemoteQueryEc dst.bits os info handle a ec) := by
  have hbody := (addressCastIn_yields F.address a).bind (fun addr _ =>
    (wow64QueryEcIn_yields F.pointer os info handle addr ec).bind (fun answer _ =>
      (parseInfoIn_yields F.parse answer.1).bind (fun region _ =>
        yields_pure (region, answer.2))))
  have hwidth : 64 < src.bits ↔ AddressSize.eight.bytes < src.bytes :=
    @AddressSize.bits_lt .eight src
  rw [wow64RemoteQueryEcIn, wow64RemoteQueryEc]
  by_cases hsize : AddressSize.eight.bytes < src.bytes
  · rw [if_pos hsize, if_pos (hwidth.mpr hsize)]
    exact hbody
  · rw [if_neg hsize, if_neg (fun h => hsize (hwidth.mp h))]
    exact yields_noexcept hbody

/-! ## What the remote query writes -/

/-- The bytes `parse_info` writes. -/
def ParseFrames.Writes (F : ParseFrames dst ptr) (c : Nat) : Prop :=
  F.base.Covers c ∨ F.size.Covers c ∨ F.bounds.lower.Writes c ∨ F.bounds.upper.Writes c

instance (F : ParseFrames dst ptr) (c : Nat) : Decidable (F.Writes c) :=
  inferInstanceAs (Decidable (_ ∨ _))

theorem parseInfoIn_writesOnly (F : ParseFrames dst ptr)
    (info : MemoryBasicInformation ptr.bits) : WritesOnly F.Writes (parseInfoIn F info) := by
  rw [parseInfoIn_eq]
  have hbase := (uintptrCastIn_writesOnly F.base info.baseAddress).mono (Q := F.Writes)
    (fun _ hc => Or.inl hc)
  have hsize := (uintptrCastIn_writesOnly F.size info.regionSize).mono (Q := F.Writes)
    (fun _ hc => Or.inr (Or.inl hc))
  refine writesOnly_noexcept (hbase.bind (fun base _ _ => hsize.bind (fun size _ _ =>
    WritesOnly.bind ?_ (fun _ _ _ => writesOnly_pure _))))
  have hlower := (addressCastIn_writesOnly F.bounds.lower info.baseAddress).mono (Q := F.Writes)
    (fun _ hc => Or.inr (Or.inr (Or.inl hc)))
  have hupper := (addressCastIn_writesOnly F.bounds.upper (base + size)).mono (Q := F.Writes)
    (fun _ hc => Or.inr (Or.inr (Or.inr hc)))
  exact hlower.bind (fun _ _ _ => hupper.bind (fun _ _ _ => writesOnly_pure _))

/-- The pointer takes eight bytes: `wow64_query` leaves zeros behind it. -/
theorem wow64QueryIn_leaves (f : CastFrame .four .eight) (os : WindowsMemory 32) (handle : Int)
    {x : BitVec 64} (hx : x < 0xffffffff) :
    Leaves (f.value + 4) 0 (wow64QueryIn f os handle x) := by
  have hfits : x.toNat < 2 ^ AddressSize.four.bits := Nat.lt_trans hx (by decide)
  have hnot : ¬ (0xffffffff : BitVec 64) ≤ x := Nat.not_le.mpr hx
  rw [wow64QueryIn, if_neg hnot]
  exact (addressCastUncheckedIn_leaves f hfits (by decide) (by decide)).bind
    (fun p => (writesOnly_lift _).keeps (P := fun _ => False) id 0)

theorem wow64QueryEcIn_leaves (f : CastFrame .four .eight) (os : WindowsMemory 32)
    (info : MemoryBasicInformation 32) (handle : Int) {x : BitVec 64} (hx : x < 0xffffffff)
    (ec : ErrorCode) : Leaves (f.value + 4) 0 (wow64QueryEcIn f os info handle x ec) := by
  have hfits : x.toNat < 2 ^ AddressSize.four.bits := Nat.lt_trans hx (by decide)
  have hnot : ¬ (0xffffffff : BitVec 64) ≤ x := Nat.not_le.mpr hx
  rw [wow64QueryEcIn, if_neg hnot]
  exact (addressCastUncheckedIn_leaves f hfits (by decide) (by decide)).bind
    (fun p => keeps_pure _)

/-- What the pointer's cast leaves behind, no later part of the query changes. -/
theorem wow64RemoteQueryIn_leaves (F : Wow64QueryFrames dst .eight)
    (hparse : ¬ F.parse.Writes (F.pointer.value + 4)) (os : WindowsMemory 32) (handle : Int)
    {x : BitVec 64} (hx : x < 0xffffffff) :
    Leaves (F.pointer.value + 4) 0 (wow64RemoteQueryIn F os handle x) :=
  Leaves.after (addressCastIn_self F.address x) ((wow64QueryIn_leaves F.pointer os handle hx).bind
    (fun info => (parseInfoIn_writesOnly F.parse info).keeps hparse 0))

theorem wow64RemoteQueryEcIn_leaves (F : Wow64QueryFrames dst .eight)
    (hparse : ¬ F.parse.Writes (F.pointer.value + 4)) (os : WindowsMemory 32)
    (info : MemoryBasicInformation 32) (handle : Int) {x : BitVec 64} (hx : x < 0xffffffff)
    (ec : ErrorCode) :
    Leaves (F.pointer.value + 4) 0 (wow64RemoteQueryEcIn F os info handle x ec) := by
  rw [wow64RemoteQueryEcIn, if_neg (Nat.lt_irrefl _)]
  refine leaves_noexcept (Leaves.after (addressCastIn_self F.address x) ?_)
  exact (wow64QueryEcIn_leaves F.pointer os info handle hx ec).bind
    (fun answer => ((parseInfoIn_writesOnly F.parse answer.1).keeps hparse 0).bind
      (fun _ => keeps_pure _))

/-- From the last 32-bit address on the query throws in front of that cast. -/
theorem wow64RemoteQueryIn_inside (F : Wow64QueryFrames dst .eight) (os : WindowsMemory 32)
    (handle : Int) {x : BitVec 64} (hx : 0xffffffff ≤ x) :
    WritesOnly F.address.Covers (wow64RemoteQueryIn F os handle x) := by
  refine (addressCastIn_self_writesOnly F.address x).after (addressCastIn_self F.address x) ?_
  rw [wow64QueryIn, if_pos hx]
  exact (writesOnly_throw _).of_throws (yields_throw _)

theorem wow64RemoteQueryEcIn_inside (F : Wow64QueryFrames dst .eight) (os : WindowsMemory 32)
    (info : MemoryBasicInformation 32) (handle : Int) {x : BitVec 64} (hx : 0xffffffff ≤ x)
    (ec : ErrorCode) :
    WritesOnly F.address.Covers (wow64RemoteQueryEcIn F os info handle x ec) := by
  rw [wow64RemoteQueryEcIn, if_neg (Nat.lt_irrefl _)]
  refine writesOnly_noexcept ((addressCastIn_self_writesOnly F.address x).after
    (addressCastIn_self F.address x) ?_)
  rw [wow64QueryEcIn, if_pos hx]
  exact (writesOnly_throw _).of_throws (yields_throw _)

end VmUtils
