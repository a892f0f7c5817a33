import VmUtils.Region
import VmUtils.Lib.LineLoop

/-! # The Linux queries

    `detail/linux/query.inl`: the reader of `/proc/<pid>/maps`, the gap filler
    and the eight overloads of `query` and `query_range`.  The stream is read
    character by character; the locals the source leaves uninitialised start
    with arbitrary values (`Uninit`). -/

namespace VmUtils

open TextStream

variable {w a : Nat}

/-- The indices `0` to `3` of a `ProtChars` are literals of `Fin 4`. -/
instance protChars_neZero : NeZero 4 := ⟨by decide⟩

/-- `char prot[4]`. -/
abbrev ProtChars := Fin 4 → Char

/-- A `bool` promoted to `int`. -/
def boolToInt (b : Bool) : NativeProtection := if b then 1 else 0

/-- `transform_prot`. -/
def transformProt (prot : ProtChars) : Protection :=
  ⟨boolToInt (prot 0 != '-') ||| boolToInt (prot 1 != '-') * 2
    ||| boolToInt (prot 2 != '-') * 4⟩

/-! ## `fill_region_gaps` -/

/-- The loop of `fill_region_gaps`: the vector it indexes grows under it. -/
def fillRegionGapsLoop (regions : List (BasicRegion w)) (i : Nat) : List (BasicRegion w) :=
  if h : i < regions.length then
    have hprev : i - 1 < regions.length := by omega
    if regions[i].begin ≠ regions[i - 1].end then
      -- `i` is incremented twice to skip the newly inserted region
      fillRegionGapsLoop
        (regions.insertIdx i (BasicRegion.free regions[i - 1].end regions[i].begin)) (i + 2)
    else
      fillRegionGapsLoop regions (i + 1)
  else regions
termination_by regions.length - i
decreasing_by
  · rw [List.length_insertIdx_of_le_length (Nat.le_of_lt h)]
    omega
  · omega

/-- `fill_region_gaps`. -/
def fillRegionGaps (regions : List (BasicRegion w)) : List (BasicRegion w) :=
  fillRegionGapsLoop regions 1

/-! ## The scanning loops -/

/-- The initial contents of the locals `begin` and `prot`, which the source
    does not initialise. -/
structure Uninit where
  beginAddr : BitVec 64
  prot : ProtChars

/-- The locals of the scanning loops. -/
structure Locals where
  beginAddr : BitVec 64
  endAddr : BitVec 64
  prot : ProtChars

/-- The locals on entry: only `end` is initialised. -/
def Uninit.locals (u : Uninit) : Locals :=
  { beginAddr := u.beginAddr, endAddr := 0, prot := u.prot }

/-- The loop body of `query_impl`. -/
def queryBody (w : Nat) (address : BitVec 64) (maps : IStream Exn) (l : Locals) :
    Except Exn (Round (IStream Exn × Locals) (BasicRegion w)) := do
  let (maps, b) ← maps.extractHex l.beginAddr
  -- address is in free memory and the last end is the beginning of the region
  if address < b then
    let lo ← addressCast w l.endAddr
    let hi ← addressCast w b
    return .stop (BasicRegion.free lo hi)
  else
    let maps ← maps.ignore
    let (maps, e) ← maps.extractHex l.endAddr
    if e < address then
      return .again (maps, { beginAddr := b, endAddr := e, prot := l.prot })
    else
      let maps ← maps.ignore
      let (_, prot) ← maps.read l.prot
      let lo ← addressCast w b
      let hi ← addressCast w e
      return .stop (BasicRegion.mapped lo hi (transformProt prot) (prot 3 != '-'))

/-- The loop body of `query_range_impl`, whose state is the locals and the
    vector; leaving by `break` keeps the vector. -/
def queryRangeBody (w : Nat) (first last : BitVec 64) (maps : IStream Exn)
    (s : Locals × List (BasicRegion w)) :
    Except Exn (Round (IStream Exn × Locals × List (BasicRegion w)) (List (BasicRegion w))) := do
  let (maps, b) ← maps.extractHex s.1.beginAddr
  if last < b then
    return .stop s.2
  else
    let maps ← maps.ignore
    let (maps, e) ← maps.extractHex s.1.endAddr
    if e < first then
      return .again (maps, { beginAddr := b, endAddr := e, prot := s.1.prot }, s.2)
    else
      let maps ← maps.ignore
      let (maps, prot) ← maps.read s.1.prot
      let lo ← addressCast w b
      let hi ← addressCast w e
      let region := BasicRegion.mapped lo hi (transformProt prot) (prot 3 != '-')
      return .again (maps, { beginAddr := b, endAddr := e, prot := prot }, s.2 ++ [region])

/-- Reading the two bounds of a line uses up budget. -/
theorem bounds_budget_lt {s s₁ s₂ s₃ : IStream Exn} {x y b e : BitVec 64}
    (hs : s.failbit = false) (h₁ : s.extractHex x = .ok (s₁, b)) (h₂ : s₁.ignore = .ok s₂)
    (h₃ : s₂.extractHex y = .ok (s₃, e)) : s₃.budget < s.budget := by
  have hle := Nat.le_trans (extractHex_budget_le h₃) (ignore_budget h₂)
  exact Nat.lt_of_le_of_lt hle (extractHex_budget hs h₁)

/-- A round of `query_impl` that goes on has used up budget. -/
theorem queryBody_budget_lt (address : BitVec 64) {s s' : IStream Exn} {l l' : Locals}
    (hs : s.failbit = false) (h : queryBody w address s l = .ok (.again (s', l'))) :
    s'.budget < s.budget := by
  obtain ⟨⟨s₁, b⟩, h₁, h⟩ := bind_eq_ok h
  dsimp only at h
  by_cases hb : address < b
  · rw [if_pos hb] at h
    obtain ⟨lo, -, h⟩ := bind_eq_ok h
    obtain ⟨hi, -, h⟩ := bind_eq_ok h
    exact nomatch h
  · rw [if_neg hb] at h
    obtain ⟨s₂, h₂, h⟩ := bind_eq_ok h
    obtain ⟨⟨s₃, e⟩, h₃, h⟩ := bind_eq_ok h
    dsimp only at h
    have hlt := bounds_budget_lt hs h₁ h₂ h₃
    by_cases he : e < address
    · rw [if_pos he] at h
      rw [← (Prod.mk.inj (Round.again.inj (Except.ok.inj h))).1]
      exact hlt
    · rw [if_neg he] at h
      obtain ⟨s₄, -, h⟩ := bind_eq_ok h
      obtain ⟨⟨s₅, prot⟩, -, h⟩ := bind_eq_ok h
      obtain ⟨lo, -, h⟩ := bind_eq_ok h
      obtain ⟨hi, -, h⟩ := bind_eq_ok h
      exact nomatch h

/-- A round of `query_range_impl` that goes on has used up budget. -/
theorem queryRangeBody_budget_lt (first last : BitVec 64) {s s' : IStream Exn}
    {l l' : Locals × List (BasicRegion w)} (hs : s.failbit = false)
    (h : queryRangeBody w first last s l = .ok (.again (s', l'))) : s'.budget < s.budget := by
  obtain ⟨⟨s₁, b⟩, h₁, h⟩ := bind_eq_ok h
  dsimp only at h
  by_cases hb : last < b
  · rw [if_pos hb] at h
    exact nomatch h
  · rw [if_neg hb] at h
    obtain ⟨s₂, h₂, h⟩ := bind_eq_ok h
    obtain ⟨⟨s₃, e⟩, h₃, h⟩ := bind_eq_ok h
    dsimp only at h
    have hlt := bounds_budget_lt hs h₁ h₂ h₃
    by_cases he : e < first
    · rw [if_pos he] at h
      rw [← (Prod.mk.inj (Round.again.inj (Except.ok.inj h))).1]
      exact hlt
    · rw [if_neg he] at h
      obtain ⟨s₄, h₄, h⟩ := bind_eq_ok h
      obtain ⟨⟨s₅, prot⟩, h₅, h⟩ := bind_eq_ok h
      obtain ⟨lo, -, h⟩ := bind_eq_ok h
      obtain ⟨hi, -, h⟩ := bind_eq_ok h
      have hle' := Nat.le_trans (read_budget h₅) (ignore_budget h₄)
      rw [← (Prod.mk.inj (Round.again.inj (Except.ok.inj h))).1]
      exact Nat.lt_of_le_of_lt hle' hlt

/-- The loop of `query_impl`. -/
def queryLoop (w : Nat) (address : BitVec 64) : LineBody Exn Locals (BasicRegion w) where
  run := queryBody w address
  budget_lt := queryBody_budget_lt address

/-- The loop of `query_range_impl`. -/
def queryRangeLoop (w : Nat) (first last : BitVec 64) :
    LineBody Exn (Locals × List (BasicRegion w)) (List (BasicRegion w)) where
  run := queryRangeBody w first last
  budget_lt := queryRangeBody_budget_lt first last

/-- `query_impl`. -/
def queryImpl (w : Nat) (maps : IStream Exn) (u : Uninit) (address : BitVec 64) :
    Except Exn (BasicRegion w) := do
  match ← forLines (queryLoop w address) maps u.locals with
  | .stop region => return region
  | .again l =>
      let lo ← addressCast w l.endAddr
      return BasicRegion.free lo (addressCastUnchecked w (BitVec.allOnes w))

/-- `query_range_impl`. -/
def queryRangeImpl (w : Nat) (maps : IStream Exn) (u : Uninit) (first last : BitVec 64) :
    Except Exn (List (BasicRegion w)) := do
  match ← forLines (queryRangeLoop w first last) maps (u.locals, []) with
  | .stop regions => return fillRegionGaps regions
  | .again (_, regions) => return fillRegionGaps regions

/-! ## The overloads -/

/-- What the queries ask of the operating system: the contents of the files
    that can be opened, and `getpid()`. -/
structure Process where
  openFile : String → Option (List Char)
  getpid : Int

/-- `"/proc/" + std::to_string(handle) + "/maps"`. -/
def mapsPath (handle : Int) : String := "/proc/" ++ toString handle ++ "/maps"

/-- `query(handle, address)`: the stream throws, also when it cannot be opened. -/
def query (w : Nat) (os : Process) (u : Uninit) (handle : Int) (address : BitVec a) :
    Except Exn (BasicRegion w) :=
  match os.openFile (mapsPath handle) with
  | none => .error .iosFailure
  | some text => do
      let addr ← addressCast 64 address
      queryImpl w (IStream.over (some .iosFailure) text) u addr

/-- `query(handle, address, ec)`. -/
def queryEc (w : Nat) (os : Process) (u : Uninit) (handle : Int) (address : BitVec a)
    (ec : ErrorCode) : Except Exn (BasicRegion w × ErrorCode) :=
  match os.openFile (mapsPath handle) with
  | none => .ok ({}, ErrorCode.ioError)
  | some text => do
      let addr ← addressCast 64 address
      let region ← queryImpl w (IStream.over none text) u addr
      return (region, ec)

/-- `query_range(handle, begin, end)`. -/
def queryRange (w : Nat) (os : Process) (u : Uninit) (handle : Int) (first last : BitVec a) :
    Except Exn (List (BasicRegion w)) :=
  match os.openFile (mapsPath handle) with
  | none => .error .iosFailure
  | some text => do
      let lo ← addressCast 64 first
      let hi ← addressCast 64 last
      queryRangeImpl w (IStream.over (some .iosFailure) text) u lo hi

/-- `query_range(handle, begin, end, ec)`. -/
def queryRangeEc (w : Nat) (os : Process) (u : Uninit) (handle : Int) (first last : BitVec a)
    (ec : ErrorCode) : Except Exn (List (BasicRegion w) × ErrorCode) :=
  match os.openFile (mapsPath handle) with
  | none => .ok ([], ErrorCode.ioError)
  | some text => do
      let lo ← addressCast 64 first
      let hi ← addressCast 64 last
      let regions ← queryRangeImpl w (IStream.over none text) u lo hi
      return (regions, ec)

/-- `query(address)`. -/
def queryLocal (w : Nat) (os : Process) (u : Uninit) (address : BitVec a) :
    Except Exn (BasicRegion w) := do
  let addr ← addressCast 64 address
  query w os u os.getpid addr

/-- `query(address, ec)`. -/
def queryLocalEc (w : Nat) (os : Process) (u : Uninit) (address : BitVec a) (ec : ErrorCode) :
    Except Exn (BasicRegion w × ErrorCode) :=
  queryEc w os u os.getpid address ec

/-- `query_range(begin, end)`. -/
def queryRangeLocal (w : Nat) (os : Process) (u : Uninit) (first last : BitVec a) :
    Except Exn (List (BasicRegion w)) :=
  queryRange w os u os.getpid first last

/-- `query_range(begin, end, ec)`. -/
def queryRangeLocalEc (w : Nat) (os : Process) (u : Uninit) (first last : BitVec a)
    (ec : ErrorCode) : Except Exn (List (BasicRegion w) × ErrorCode) :=
  queryRangeEc w os u os.getpid first last ec

end VmUtils
