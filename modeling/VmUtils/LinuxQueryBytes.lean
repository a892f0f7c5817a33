import VmUtils.AddressCastBytes
import VmUtils.QueryResult

/-! # The Linux query on bytes

    `query(handle, address, ec)` with its address casts as the copies they are.
    The outcome is that of the query on numbers, wherever the objects of the casts
    lie (`queryEcIn_yields`).  From eight bytes to four every cast that returns
    overruns its target, and with the cast of a bound so does the query
    (`queryEcIn_leaves`); it stays inside the objects if that cast throws
    (`queryEcIn_inside`). -/

namespace VmUtils

open TextStream ByteMemory StoreEffects

variable {dst src : AddressSize}

/-! ## The casts of two bounds -/

/-- Where the casts of the bounds of a region have their objects. -/
structure BoundFrames (dst src : AddressSize) where
  lower : CastFrames dst src
  upper : CastFrames dst src

def BoundFrames.Covers (F : BoundFrames dst src) (c : Nat) : Prop :=
  F.lower.Covers c ∨ F.upper.Covers c

instance (F : BoundFrames dst src) (c : Nat) : Decidable (F.Covers c) :=
  inferInstanceAs (Decidable (_ ∨ _))

/-- The casts of a braced list that begins with the bounds: they run from left to
    right. -/
def castBoundsIn (F : BoundFrames dst src) (lo hi : BitVec src.bits) :
    OsM Memory (BitVec dst.bits × BitVec dst.bits) := do
  let lo ← addressCastIn F.lower lo
  let hi ← addressCastIn F.upper hi
  return (lo, hi)

theorem castBoundsIn_yields (F : BoundFrames dst src) (lo hi : BitVec src.bits) :
    Yields (castBoundsIn F lo hi) (do
      let lo ← addressCast dst.bits lo
      let hi ← addressCast dst.bits hi
      return (lo, hi)) :=
  (addressCastIn_yields F.lower lo).bind
    (fun _ _ => (addressCastIn_yields F.upper hi).bind (fun _ _ => yields_pure _))

/-- A lower bound that does not fit ends the list in front of a copy. -/
theorem castBoundsIn_inside (F : BoundFrames dst src) {lo : BitVec src.bits}
    (h : 2 ^ dst.bits ≤ lo.toNat) (hi : BitVec src.bits) :
    WritesOnly F.Covers (castBoundsIn F lo hi) := by
  obtain ⟨what, hthrows⟩ := addressCastIn_yields_error F.lower h
  exact ((addressCastIn_inside F.lower lo (Or.inr h)).mono (fun _ hc => Or.inl hc)).of_throws
    hthrows

/-- A lower bound that fits leaves zeros behind the target of its narrowing cast,
    unless the other cast writes there. -/
theorem castBoundsIn_leaves (F : BoundFrames dst src) {lo : BitVec src.bits}
    (h : lo.toNat < 2 ^ dst.bits) (hi : BitVec src.bits) {i : Nat} (hdst : dst.bytes ≤ i)
    (hsrc : i < src.bytes) (hupper : ¬ F.upper.Writes (F.lower.copy.value + i)) :
    Leaves (F.lower.copy.value + i) 0 (castBoundsIn F lo hi) :=
  (addressCastIn_leaves F.lower h hdst hsrc).bind
    (fun _ => ((addressCastIn_writesOnly F.upper hi).keeps hupper 0).bind (fun _ => keeps_pure _))

/-! ## The query -/

/-- Where the casts of a query have their objects. -/
structure QueryFrames (dst src : AddressSize) where
  address : CastFrames .eight src
  bounds : BoundFrames dst .eight
  max : CastFrame dst dst

def QueryFrames.Covers (F : QueryFrames dst src) (c : Nat) : Prop :=
  F.address.Covers c ∨ F.bounds.Covers c ∨ F.max.Covers c

instance (F : QueryFrames dst src) (c : Nat) : Decidable (F.Covers c) :=
  inferInstanceAs (Decidable (_ ∨ _))

/-- The loop body of `query_impl`.  A `return` leaves the loop with its casts
    still to run. -/
def queryBodyIn (F : BoundFrames dst .eight) (address : BitVec 64) (maps : IStream Exn)
    (l : Locals) :
    Except Exn (Round (IStream Exn × Locals) (OsM Memory (BasicRegion dst.bits))) := do
  let (maps, b) ← maps.extractHex l.beginAddr
  -- address is in free memory and the last end is the beginning of the region
  if address < b then
    return .stop (do
      let (lo, hi) ← castBoundsIn F l.endAddr b
      return BasicRegion.free lo hi)
  else
    let maps ← maps.ignore
    let (maps, e) ← maps.extractHex l.endAddr
    if e < address then
      return .again (maps, { beginAddr := b, endAddr := e, prot := l.prot })
    else
      let maps ← maps.ignore
      let (_, prot) ← maps.read l.prot
      return .stop (do
        let (lo, hi) ← castBoundsIn F b e
        return BasicRegion.mapped lo hi (transformProt prot) (prot 3 != '-'))

/-- A region with its bounds cast. -/
def castRegionIn (F : BoundFrames dst .eight) (r : BasicRegion 64) :
    OsM Memory (BasicRegion dst.bits) := do
  let (lo, hi) ← castBoundsIn F r.beginAddr r.endAddr
  return ⟨lo, hi, r.protection, r.used, r.shared, r.guarded⟩

/-- A round casts the bounds of what the round at 64 bits returns. -/
theorem queryBodyIn_eq (F : BoundFrames dst .eight) (a : BitVec 64) (s : IStream Exn)
    (l : Locals) :
    queryBodyIn F a s l
      = queryBody 64 a s l >>= Round.bindStop (fun r => .ok (castRegionIn F r)) := by
  simp only [queryBody, queryBodyIn, addressCast_self, bind, Except.bind]
  rcases s.extractHex l.beginAddr with e | ⟨s₁, b⟩
  · rfl
  dsimp only
  by_cases hb : a < b
  · rw [if_pos hb, if_pos hb]
    rfl
  · rw [if_neg hb, if_neg hb]
    rcases s₁.ignore with e | s₂
    · rfl
    dsimp only
    rcases s₂.extractHex l.endAddr with e | ⟨s₃, e⟩
    · rfl
    dsimp only
    by_cases he : e < a
    · rw [if_pos he, if_pos he]
      rfl
    · rw [if_neg he, if_neg he]
      rcases s₃.ignore with e' | s₄
      · rfl
      dsimp only
      rcases s₄.read l.prot with e' | ⟨s₅, prot⟩
      · rfl
      · rfl

theorem queryBodyIn_budget_lt (F : BoundFrames dst .eight) (a : BitVec 64) {s s' : IStream Exn}
    {l l' : Locals} (hs : s.failbit = false)
    (h : queryBodyIn F a s l = .ok (.again (s', l'))) : s'.budget < s.budget := by
  rw [queryBodyIn_eq] at h
  obtain ⟨round, hround, h⟩ := bind_eq_ok h
  cases round with
  | stop r => cases h
  | again state =>
      obtain rfl := Round.again.inj (Except.ok.inj h)
      exact queryBody_budget_lt a hs hround

/-- The loop of `query_impl`. -/
def queryLoopIn (F : BoundFrames dst .eight) (address : BitVec 64) :
    LineBody Exn Locals (OsM Memory (BasicRegion dst.bits)) where
  run := queryBodyIn F address
  budget_lt := queryBodyIn_budget_lt F address

/-- `query_impl`. -/
def queryImplIn (F : QueryFrames dst src) (maps : IStream Exn) (u : Uninit)
    (address : BitVec 64) : OsM Memory (BasicRegion dst.bits) := do
  match ← forLines (queryLoopIn F.bounds address) maps u.locals with
  | .stop casts => casts
  | .again l =>
      -- above the last record the end is the maximum of the type, cast without a check
      let lo ← addressCastIn F.bounds.lower l.endAddr
      let hi ← addressCastUncheckedIn F.max (BitVec.allOnes dst.bits)
      return BasicRegion.free lo hi

/-- `query(handle, address, ec)`. -/
def queryEcIn (F : QueryFrames dst src) (os : Process) (u : Uninit) (handle : Int)
    (address : BitVec src.bits) (ec : ErrorCode) : OsM Memory (BasicRegion dst.bits × ErrorCode) :=
  match os.openFile (mapsPath handle) with
  | none => return ({}, ErrorCode.ioError)
  | some text => do
      let addr ← addressCastIn F.address address
      let region ← queryImplIn F (IStream.over none text) u addr
      return (region, ec)

/-! ## Refinement of the query on numbers -/

theorem castRegionIn_yields (F : BoundFrames dst .eight) (r : BasicRegion 64) :
    Yields (castRegionIn F r) (r.castBounds dst.bits) := by
  have h := (castBoundsIn_yields F r.beginAddr r.endAddr).bind (fun b _ =>
    yields_pure (⟨b.1, b.2, r.protection, r.used, r.shared, r.guarded⟩ : BasicRegion dst.bits))
  have hcast : r.castBounds dst.bits = (do
      let lo ← addressCast dst.bits r.beginAddr
      let hi ← addressCast dst.bits r.endAddr
      return (lo, hi)) >>= fun b => .ok ⟨b.1, b.2, r.protection, r.used, r.shared, r.guarded⟩ := by
    rw [BasicRegion.castBounds]
    cases addressCast dst.bits r.beginAddr with
    | error e => rfl
    | ok lo => cases addressCast dst.bits r.endAddr <;> rfl
  rw [hcast]
  exact h

/-- What is returned above the last record. -/
def aboveIn (F : QueryFrames dst src) (lo : BitVec 64) : OsM Memory (BasicRegion dst.bits) := do
  let lo ← addressCastIn F.bounds.lower lo
  let hi ← addressCastUncheckedIn F.max (BitVec.allOnes dst.bits)
  return BasicRegion.free lo hi

theorem aboveIn_yields (F : QueryFrames dst src) (lo : BitVec 64) :
    Yields (aboveIn F lo) (aboveResult dst.bits lo) :=
  (addressCastIn_yields F.bounds.lower lo).bind (fun _ _ =>
    (addressCastUncheckedIn_yields F.max (BitVec.allOnes dst.bits)).bind (fun _ _ => yields_pure _))

/-- The loop at 64 bits decides which casts are run. -/
theorem queryImplIn_eq (F : QueryFrames dst src) (maps : IStream Exn) (u : Uninit)
    (a : BitVec 64) :
    queryImplIn F maps u a = match forLines (queryLoop 64 a) maps u.locals with
      | .error e => throw e
      | .ok (.stop r) => castRegionIn F.bounds r
      | .ok (.again l) => aboveIn F l.endAddr := by
  rw [queryImplIn, forLines_bindStop (b := queryLoop 64 a) (queryBodyIn_eq F.bounds a)]
  rcases forLines (queryLoop 64 a) maps u.locals with e | l | r
  · rfl
  · rfl
  · rfl

theorem queryImplIn_yields (F : QueryFrames dst src) (maps : IStream Exn) (u : Uninit)
    (a : BitVec 64) : Yields (queryImplIn F maps u a) (queryImpl dst.bits maps u a) := by
  rw [queryImplIn_eq, queryImpl_eq_bind,
    forLines_bindStop (b := queryLoop 64 a) (c := queryLoop dst.bits a) (queryBody_castBounds a)]
  rcases forLines (queryLoop 64 a) maps u.locals with e | l | r
  · exact yields_throw e
  · exact aboveIn_yields F l.endAddr
  · -- on numbers a cast that throws ends the loop; here it runs behind the loop
    have h := castRegionIn_yields F.bounds r
    show Yields (castRegionIn F.bounds r)
      (Except.map Round.stop (r.castBounds dst.bits) >>= roundResult dst.bits)
    cases hr : r.castBounds dst.bits with
    | error e =>
        rw [hr] at h
        exact h
    | ok r' =>
        rw [hr] at h
        exact h

/-- **Refinement.**  The query on bytes ends as the query on numbers does. -/
theorem queryEcIn_yields (F : QueryFrames dst src) (os : Process) (u : Uninit) (handle : Int)
    (a : BitVec src.bits) (ec : ErrorCode) :
    Yields (queryEcIn F os u handle a ec) (queryEc dst.bits os u handle a ec) := by
  rw [queryEcIn, queryEc]
  cases os.openFile (mapsPath handle) with
  | none => exact yields_pure _
  | some text =>
      exact (addressCastIn_yields F.address a).bind (fun addr _ =>
        (queryImplIn_yields F _ u addr).bind (fun _ _ => yields_pure _))

/-! ## What the query writes -/

/-- On a nonempty list of records the lower bound is the one of the region the scan
    finds. -/
theorem queryImplIn_listing (F : QueryFrames dst src) {lines : List MapsLine} (h : lines ≠ [])
    (u : Uninit) (a : BitVec 64) :
    queryImplIn F (IStream.over none (mapsText lines)) u a
      = if ∃ m ∈ lines, a < m.beginAddr ∨ a ≤ m.endAddr then
          castRegionIn F.bounds (scanRegion a 0 lines)
        else aboveIn F (scanRegion a 0 lines).beginAddr := by
  rw [queryImplIn_eq, queryLoop_end h]
  by_cases hd : ∃ m ∈ lines, a < m.beginAddr ∨ a ≤ m.endAddr
  · rw [if_pos hd, if_pos hd]
    rfl
  · rw [if_neg hd, if_neg hd, scanRegion_above hd]
    show aboveIn F (u.locals.behind lines).endAddr = _
    rw [behind_endAddr]
    rfl

/-- The query of an open file. -/
theorem queryEcIn_open {os : Process} {handle : Int} {text : List Char}
    (hopen : os.openFile (mapsPath handle) = some text) (F : QueryFrames dst src) (u : Uninit)
    (a : BitVec src.bits) (ec : ErrorCode) :
    queryEcIn F os u handle a ec = (do
      let addr ← addressCastIn F.address a
      let region ← queryImplIn F (IStream.over none text) u addr
      return (region, ec)) := by
  rw [queryEcIn, hopen]

/-- A lower bound that does not fit throws in front of the first copy. -/
theorem queryEcIn_inside {os : Process} {handle : Int} {L : Listing}
    (hopen : os.openFile (mapsPath handle) = some L.text) (hne : L.lines ≠ [])
    (F : QueryFrames dst .eight) (u : Uninit) {a : BitVec 64}
    (h : 2 ^ dst.bits ≤ (scanRegion a 0 L.lines).beginAddr.toNat) (ec : ErrorCode) :
    WritesOnly F.Covers (queryEcIn F os u handle a ec) := by
  rw [queryEcIn_open hopen]
  refine ((addressCastIn_self_writesOnly F.address a).mono (fun _ hc => Or.inl hc)).after
    (addressCastIn_self F.address a) (WritesOnly.bind ?_ (fun _ _ _ => writesOnly_pure _))
  refine WritesOnly.mono (P := F.bounds.Covers) ?_ (fun _ hc => Or.inr (Or.inl hc))
  rw [Listing.text, queryImplIn_listing F hne]
  -- in front of the last end and above it the lower bound is cast first
  split
  · exact (castBoundsIn_inside F.bounds h _).bind (fun _ _ _ => writesOnly_pure _)
  · obtain ⟨what, hthrows⟩ := addressCastIn_yields_error F.bounds.lower h
    exact ((addressCastIn_inside F.bounds.lower _ (Or.inr h)).mono
      (fun _ hc => Or.inl hc)).of_throws hthrows

/-- A lower bound that fits is copied into a target of four bytes. -/
theorem queryEcIn_leaves {os : Process} {handle : Int} {L : Listing}
    (hopen : os.openFile (mapsPath handle) = some L.text) (hne : L.lines ≠ [])
    (F : QueryFrames dst .eight) (u : Uninit) {a : BitVec 64}
    (h : (scanRegion a 0 L.lines).beginAddr.toNat < 2 ^ dst.bits) (ec : ErrorCode) {i : Nat}
    (hdst : dst.bytes ≤ i) (hsrc : i < 8)
    (hupper : ¬ F.bounds.upper.Writes (F.bounds.lower.copy.value + i))
    (hmax : ¬ F.max.Writes (F.bounds.lower.copy.value + i)) :
    Leaves (F.bounds.lower.copy.value + i) 0 (queryEcIn F os u handle a ec) := by
  rw [queryEcIn_open hopen]
  refine Leaves.after (addressCastIn_self F.address a) (Leaves.bind ?_ (fun _ => keeps_pure _))
  rw [Listing.text, queryImplIn_listing F hne]
  split
  · exact (castBoundsIn_leaves F.bounds h _ hdst hsrc hupper).bind (fun _ => keeps_pure _)
  · exact (addressCastIn_leaves F.bounds.lower h hdst hsrc).bind (fun _ =>
      ((addressCastUncheckedIn_writesOnly F.max _).keeps hmax 0).bind (fun _ => keeps_pure _))

end VmUtils
