import VmUtils.RecordScan
import VmUtils.QueryRangeResult

/-! # The uninitialised locals

    `query_impl` and `query_range_impl` declare `begin` and `prot` without a
    value.  Two runs over a nonempty list of records agree whatever these hold:
    the first record gives them values, except `prot` of records that are passed
    by, which the round at the end of the text passes by as well (`Agree`).  On
    the empty text, which the kernel serves for its own threads, the first round
    already meets the end and works on what the locals happened to hold. -/

namespace VmUtils

open TextStream

variable {w v : Nat}

/-! ## Two runs over records -/

/-- The locals agree where the round at the end of the text looks. -/
structure Agree (first : BitVec 64) (l l' : Locals) : Prop where
  beginAddr : l.beginAddr = l'.beginAddr
  endAddr : l.endAddr = l'.endAddr
  prot : ¬ l.endAddr < first → l.prot = l'.prot

/-- **Two runs over the same records** collect the same vector, if the locals
    agree or a record comes first. -/
theorem queryRangeScan_agree (first last : BitVec 64) (lines : List MapsLine) {l l' : Locals}
    (h : lines = [] → Agree first l l') (regions : List (BasicRegion w)) :
    (followedBy (queryRangeScan w first last lines (l, regions))
        (fun s => queryRangeStep w first last s s.1.beginAddr s.1.endAddr s.1.prot)).map roundRegions
      = (followedBy (queryRangeScan w first last lines (l', regions))
        (fun s => queryRangeStep w first last s s.1.beginAddr s.1.endAddr s.1.prot)).map
          roundRegions := by
  induction lines generalizing l l' regions with
  | nil =>
      obtain ⟨hb, he, hp⟩ := h rfl
      show (queryRangeStep w first last (l, regions) l.beginAddr l.endAddr l.prot).map _
        = (queryRangeStep w first last (l', regions) l'.beginAddr l'.endAddr l'.prot).map _
      rw [← hb, ← he, queryRangeStep, queryRangeStep]
      by_cases hlast : last < l.beginAddr
      · rw [if_pos hlast, if_pos hlast]
      · rw [if_neg hlast, if_neg hlast]
        by_cases hfirst : l.endAddr < first
        · rw [if_pos hfirst, if_pos hfirst]
          rfl
        · rw [if_neg hfirst, if_neg hfirst, hp hfirst]
  | cons m ms ih =>
      show (followedBy (followedBy (queryRangeStep w first last (l, regions) m.beginAddr m.endAddr
          m.perms) (queryRangeScan w first last ms)) _).map _
        = (followedBy (followedBy (queryRangeStep w first last (l', regions) m.beginAddr m.endAddr
          m.perms) (queryRangeScan w first last ms)) _).map _
      rw [queryRangeStep, queryRangeStep]
      by_cases hlast : last < m.beginAddr
      · rw [if_pos hlast, if_pos hlast]
      · rw [if_neg hlast, if_neg hlast]
        by_cases hfirst : m.endAddr < first
        · -- the characters of the record are not read
          rw [if_pos hfirst, if_pos hfirst]
          have hagree : Agree first ⟨m.beginAddr, m.endAddr, l.prot⟩
              ⟨m.beginAddr, m.endAddr, l'.prot⟩ :=
            ⟨rfl, rfl, fun hnot => absurd hfirst hnot⟩
          exact ih (fun _ => hagree) regions
        · rw [if_neg hfirst, if_neg hfirst]

/-- On a nonempty list of records `query_range_impl` does not depend on them. -/
theorem queryRangeImpl_agree {lines : List MapsLine} (h : lines ≠ []) (u u' : Uninit)
    (first last : BitVec 64) :
    queryRangeImpl w (IStream.over none (mapsText lines)) u first last
      = queryRangeImpl w (IStream.over none (mapsText lines)) u' first last := by
  rw [queryRangeImpl_eq_map, queryRangeImpl_eq_map, queryRangeLoop_text,
    queryRangeLoop_text]
  exact congrArg _ (queryRangeScan_agree first last lines (fun hnil => absurd hnil h) [])

/-! ## The empty text -/

/-- The free region between two bounds. -/
def freeResult (w : Nat) (lo hi : BitVec 64) : Except Exn (BasicRegion w) := do
  let lo ← addressCast w lo
  let hi ← addressCast w hi
  return BasicRegion.free lo hi

/-- The region made of the initial contents, for the address `0`. -/
def initialResult (w : Nat) (u : Uninit) : Except Exn (BasicRegion w) := do
  let lo ← addressCast w u.beginAddr
  let hi ← addressCast w (0 : BitVec 64)
  return BasicRegion.mapped lo hi (transformProt u.prot) (u.prot 3 != '-')

/-- **`query_impl` on the empty text.** -/
theorem queryImpl_empty (u : Uninit) (a : BitVec 64) :
    queryImpl w (IStream.over none (mapsText [])) u a
      = if a < u.beginAddr then freeResult w 0 u.beginAddr
        else if 0 < a then aboveResult w 0
        else initialResult w u := by
  rw [queryImpl_eq_bind, queryLoop_text]
  show queryStep w a u.locals u.beginAddr 0 u.prot >>= roundResult w = _
  rw [queryStep]
  by_cases hb : a < u.beginAddr
  · rw [if_pos hb, if_pos hb, freeResult]
    show (addressCast w (0 : BitVec 64) >>= fun lo => _) >>= roundResult w = _
    cases addressCast w (0 : BitVec 64) with
    | error e => rfl
    | ok lo => cases addressCast w u.beginAddr <;> rfl
  · rw [if_neg hb, if_neg hb]
    by_cases he : 0 < a
    · rw [if_pos he, if_pos he]
      rfl
    · rw [if_neg he, if_neg he, initialResult]
      cases addressCast w u.beginAddr with
      | error e => rfl
      | ok lo => cases addressCast w (0 : BitVec 64) <;> rfl

/-- **`query_range_impl` on the empty text.** -/
theorem queryRangeImpl_empty (u : Uninit) (first last : BitVec 64) :
    queryRangeImpl w (IStream.over none (mapsText [])) u first last
      = if last < u.beginAddr ∨ 0 < first then .ok []
        else (initialResult w u).map (fun r => [r]) := by
  rw [queryRangeImpl_eq_map, queryRangeLoop_text]
  show ((queryRangeStep w first last (u.locals, []) u.beginAddr 0 u.prot).map _).map _ = _
  rw [queryRangeStep]
  by_cases hb : last < u.beginAddr
  · rw [if_pos hb, if_pos (Or.inl hb)]
    show Except.ok (fillRegionGaps []) = _
    rw [fillRegionGaps_eq]
    rfl
  · rw [if_neg hb]
    by_cases he : 0 < first
    · rw [if_pos he, if_pos (Or.inr he)]
      show Except.ok (fillRegionGaps []) = _
      rw [fillRegionGaps_eq]
      rfl
    · rw [if_neg he, if_neg (by rintro (h | h) <;> contradiction), initialResult]
      cases addressCast w u.beginAddr with
      | error e => rfl
      | ok lo =>
          cases addressCast w (0 : BitVec 64) with
          | error e => rfl
          | ok hi =>
              show Except.ok (fillRegionGaps [_]) = _
              rw [fillRegionGaps_eq]
              rfl

/-! ## When two runs agree -/

theorem addressCast_zero (w : Nat) : addressCast w (0 : BitVec v) = .ok 0 := by
  have hlt : (0 : BitVec v).toNat < 2 ^ w := by
    simp
  rw [(addressCast_of_lt hlt).1]
  simp

theorem aboveResult_zero (w : Nat) :
    aboveResult w 0 = .ok (BasicRegion.free 0 (BitVec.allOnes w)) := by
  rw [aboveResult, addressCast_zero, addressCastUnchecked]
  show Except.ok (BasicRegion.free 0 ((BitVec.allOnes w).setWidth w)) = _
  rw [BitVec.setWidth_eq]

theorem freeResult_zero {hi : BitVec 64} (h : hi.toNat < 2 ^ w) :
    freeResult w 0 hi = .ok (BasicRegion.free 0 (hi.setWidth w)) := by
  rw [freeResult, addressCast_zero, (addressCast_of_lt h).1]
  rfl

/-- Initial contents with `begin` given and dashes for characters. -/
def Uninit.startingAt (beginAddr : BitVec 64) : Uninit where
  beginAddr := beginAddr
  prot := fun _ => '-'

@[simp] theorem startingAt_begin (b : BitVec 64) : (Uninit.startingAt b).beginAddr = b := rfl

/-- With `begin` zero a region is returned, a free one except for the address `0`. -/
theorem queryImpl_empty_zero (a : BitVec 64) :
    queryImpl w (IStream.over none (mapsText [])) (.startingAt 0) a
      = .ok (if 0 < a then BasicRegion.free 0 (BitVec.allOnes w)
          else BasicRegion.mapped 0 0 {} false) := by
  rw [queryImpl_empty, startingAt_begin, if_neg (show ¬ a < 0 from Nat.not_lt_zero _)]
  by_cases hpos : 0 < a
  · rw [if_pos hpos, if_pos hpos, aboveResult_zero]
  · rw [if_neg hpos, if_neg hpos, initialResult, startingAt_begin, addressCast_zero]
    rfl

/-- A narrow address type: the greatest address does not fit, zero does. -/
theorem queryImpl_empty_narrow (hw : w < 64) {a : BitVec 64} (ha : a.toNat < 2 ^ 64 - 1) :
    ∃ u u', queryImpl w (IStream.over none (mapsText [])) u a
      ≠ queryImpl w (IStream.over none (mapsText [])) u' a := by
  refine ⟨.startingAt (BitVec.allOnes 64), .startingAt 0, ?_⟩
  have hpow : 2 ^ w < 2 ^ 64 := (Nat.pow_lt_pow_iff_right (Nat.lt_succ_self 1)).mpr hw
  obtain ⟨what, herr⟩ : ∃ what, addressCast w (BitVec.allOnes 64) = .error (.overflowError what) :=
    addressCast_of_le (by rw [BitVec.toNat_allOnes]; omega)
  have hlt : a < BitVec.allOnes 64 := by
    show a.toNat < (BitVec.allOnes 64).toNat
    rw [BitVec.toNat_allOnes]
    exact ha
  have hfree : freeResult w 0 (BitVec.allOnes 64) = .error (.overflowError what) := by
    rw [freeResult, addressCast_zero, herr]
    rfl
  rw [queryImpl_empty_zero, queryImpl_empty, startingAt_begin, if_pos hlt, hfree]
  intro h
  cases h

/-- A wide address type: `begin` just above the address becomes the end of the
    region. -/
theorem queryImpl_empty_wide (hw : 64 ≤ w) {a : BitVec 64} (ha : a.toNat < 2 ^ 64 - 1)
    (ha' : w = 64 → a.toNat ≠ 2 ^ 64 - 2) :
    ∃ u u', queryImpl w (IStream.over none (mapsText [])) u a
      ≠ queryImpl w (IStream.over none (mapsText [])) u' a := by
  refine ⟨.startingAt (a + 1), .startingAt 0, ?_⟩
  have hsucc : (a + 1).toNat = a.toNat + 1 := by bv_omega
  have hpow : 2 ^ 64 ≤ 2 ^ w := Nat.pow_le_pow_right (Nat.succ_pos 1) hw
  have hfits : (a + 1).toNat < 2 ^ w := by omega
  have hlt : a < a + 1 := by
    show a.toNat < (a + 1).toNat
    omega
  rw [queryImpl_empty_zero, queryImpl_empty, startingAt_begin, if_pos hlt, freeResult_zero hfits]
  intro h
  have hregion := Except.ok.inj h
  by_cases hpos : 0 < a
  · rw [if_pos hpos] at hregion
    have hnum := congrArg (fun r => r.endAddr.toNat) hregion
    have hend : (a + 1).toNat = 2 ^ w - 1 := by
      rw [← (addressCast_of_lt hfits).2, ← BitVec.toNat_allOnes]
      exact hnum
    rcases Nat.lt_or_eq_of_le hw with hwide | rfl
    · have : 2 ^ 65 ≤ 2 ^ w := Nat.pow_le_pow_right (Nat.succ_pos 1) hwide
      omega
    · have := ha' rfl
      omega
  · rw [if_neg hpos] at hregion
    exact Bool.false_ne_true (congrArg BasicRegion.used hregion)

/-- At the two greatest addresses the empty text gives the same free region. -/
theorem queryImpl_empty_top {a : BitVec 64}
    (ha : a.toNat = 2 ^ 64 - 1 ∨ (w = 64 ∧ a.toNat = 2 ^ 64 - 2)) (u : Uninit) :
    queryImpl w (IStream.over none (mapsText [])) u a
      = .ok (BasicRegion.free 0 (BitVec.allOnes w)) := by
  have hpos : 0 < a := by
    show 0 < a.toNat
    omega
  rw [queryImpl_empty, if_pos hpos, aboveResult_zero]
  by_cases hb : a < u.beginAddr
  · -- the only address above `a` is the end of the free region anyway
    have hb' : a.toNat < u.beginAddr.toNat := hb
    have hlt := u.beginAddr.isLt
    obtain ⟨rfl, ha⟩ : w = 64 ∧ a.toNat = 2 ^ 64 - 2 := by omega
    have hall : u.beginAddr = BitVec.allOnes 64 := by
      refine BitVec.eq_of_toNat_eq ?_
      rw [BitVec.toNat_allOnes]
      omega
    rw [if_pos hb, freeResult_zero hlt, hall, BitVec.setWidth_eq]
  · rw [if_neg hb]

/-- **When `query_impl` does not depend on the uninitialised locals.** -/
theorem queryImpl_independent_iff (lines : List MapsLine) (a : BitVec 64) :
    (∀ u u', queryImpl w (IStream.over none (mapsText lines)) u a
        = queryImpl w (IStream.over none (mapsText lines)) u' a)
      ↔ lines ≠ [] ∨ a.toNat = 2 ^ 64 - 1 ∨ (w = 64 ∧ a.toNat = 2 ^ 64 - 2) := by
  constructor
  · intro h
    by_contra hnot
    simp only [not_or, not_not, not_and] at hnot
    obtain ⟨rfl, htop, hw⟩ := hnot
    have ha : a.toNat < 2 ^ 64 - 1 := by
      have := a.isLt
      omega
    obtain ⟨u, u', hne⟩ : ∃ u u', queryImpl w (IStream.over none (mapsText [])) u a
        ≠ queryImpl w (IStream.over none (mapsText [])) u' a := by
      rcases Nat.lt_or_ge w 64 with hnarrow | hwide
      · exact queryImpl_empty_narrow hnarrow ha
      · exact queryImpl_empty_wide hwide ha hw
    exact hne (h u u')
  · intro h u u'
    by_cases hne : lines = []
    · subst hne
      have ha := h.resolve_left (fun hnil => hnil rfl)
      rw [queryImpl_empty_top ha, queryImpl_empty_top ha]
    · rw [queryImpl_castBounds hne, queryImpl_castBounds hne]

/-- **When `query_range_impl` does not depend on the uninitialised locals.** -/
theorem queryRangeImpl_independent_iff (lines : List MapsLine) (first last : BitVec 64) :
    (∀ u u', queryRangeImpl w (IStream.over none (mapsText lines)) u first last
        = queryRangeImpl w (IStream.over none (mapsText lines)) u' first last)
      ↔ lines ≠ [] ∨ first.toNat ≠ 0 := by
  constructor
  · intro h
    by_contra hnot
    simp only [not_or, not_not] at hnot
    obtain ⟨rfl, hfirst⟩ := hnot
    -- the characters show in the protection
    have hregions := h ⟨0, fun _ => '-'⟩ ⟨0, fun _ => 'r'⟩
    have hskip : ¬ (last < 0 ∨ 0 < first) := by
      rintro (hlt | hlt)
      · exact absurd hlt (Nat.not_lt_zero _)
      · have : 0 < first.toNat := hlt
        omega
    rw [queryRangeImpl_empty, queryRangeImpl_empty, if_neg hskip, if_neg hskip, initialResult,
      initialResult, addressCast_zero] at hregions
    have hshared := congrArg (List.map BasicRegion.shared) (Except.ok.inj hregions)
    exact Bool.false_ne_true (List.cons.inj hshared).1
  · intro h u u'
    by_cases hne : lines = []
    · subst hne
      have hfirst : 0 < first := by
        have := h.resolve_left (fun hnil => hnil rfl)
        show 0 < first.toNat
        omega
      rw [queryRangeImpl_empty, queryRangeImpl_empty, if_pos (Or.inr hfirst), if_pos (Or.inr hfirst)]
    · exact queryRangeImpl_agree hne u u' first last

/-! ## The overloads -/

/-- Handing `ec` back with the answer hides nothing of the answer. -/
theorem map_withEc_inj {α : Type} (ec : ErrorCode) {x y : Except Exn α} :
    x.map (fun r => (r, ec)) = y.map (fun r => (r, ec)) ↔ x = y := by
  constructor
  · intro h
    cases x with
    | error e =>
        cases y with
        | error e' => rw [Except.error.inj h]
        | ok r => exact nomatch h
    | ok r =>
        cases y with
        | error e' => exact nomatch h
        | ok r' => rw [(Prod.mk.inj (Except.ok.inj h)).1]
  · intro h
    rw [h]

theorem queryEc_open {os : Process} {handle : Int} {text : List Char}
    (hopen : os.openFile (mapsPath handle) = some text) (u : Uninit) (address : BitVec v)
    (ec : ErrorCode) :
    queryEc w os u handle address ec
      = addressCast 64 address >>= fun addr =>
          (queryImpl w (IStream.over none text) u addr).map (fun r => (r, ec)) := by
  rw [queryEc, hopen]
  cases addressCast 64 address with
  | error e => rfl
  | ok addr => rfl

theorem queryRangeEc_open {os : Process} {handle : Int} {text : List Char}
    (hopen : os.openFile (mapsPath handle) = some text) (u : Uninit) (first last : BitVec v)
    (ec : ErrorCode) :
    queryRangeEc w os u handle first last ec
      = addressCast 64 first >>= fun lo => addressCast 64 last >>= fun hi =>
          (queryRangeImpl w (IStream.over none text) u lo hi).map (fun r => (r, ec)) := by
  rw [queryRangeEc, hopen]
  cases addressCast 64 first with
  | error e => rfl
  | ok lo =>
      cases addressCast 64 last with
      | error e => rfl
      | ok hi => rfl

theorem queryEc_independent_iff {os : Process} {handle : Int} {lines : List MapsLine}
    (hopen : os.openFile (mapsPath handle) = some (mapsText lines)) (address : BitVec v)
    (ec : ErrorCode) :
    (∀ u u', queryEc w os u handle address ec = queryEc w os u' handle address ec)
      ↔ lines ≠ [] ∨ 2 ^ 64 - 1 ≤ address.toNat ∨ (w = 64 ∧ address.toNat = 2 ^ 64 - 2) := by
  simp only [queryEc_open hopen]
  rcases Nat.lt_or_ge address.toNat (2 ^ 64) with hlt | hge
  · obtain ⟨hcast, hnum⟩ := addressCast_of_lt hlt
    have hbind : ∀ u : Uninit, (addressCast 64 address >>= fun addr =>
        (queryImpl w (IStream.over none (mapsText lines)) u addr).map (fun r => (r, ec)))
          = (queryImpl w (IStream.over none (mapsText lines)) u (address.setWidth 64)).map
            (fun r => (r, ec)) := by
      intro u
      rw [hcast]
      rfl
    have htop : address.toNat = 2 ^ 64 - 1 ↔ 2 ^ 64 - 1 ≤ address.toNat := by omega
    simp only [hbind, map_withEc_inj, queryImpl_independent_iff, hnum, htop]
  · obtain ⟨what, herr⟩ := addressCast_of_le hge
    refine iff_of_true ?_ (Or.inr (Or.inl (by omega)))
    intro u u'
    rw [herr]
    rfl

theorem queryRangeEc_independent_iff {os : Process} {handle : Int} {lines : List MapsLine}
    (hopen : os.openFile (mapsPath handle) = some (mapsText lines)) (first last : BitVec v)
    (ec : ErrorCode) :
    (∀ u u', queryRangeEc w os u handle first last ec = queryRangeEc w os u' handle first last ec)
      ↔ lines ≠ [] ∨ first.toNat ≠ 0 ∨ 2 ^ 64 ≤ last.toNat := by
  simp only [queryRangeEc_open hopen]
  rcases Nat.lt_or_ge first.toNat (2 ^ 64) with hfirst | hfirst
  · obtain ⟨hcast, hnum⟩ := addressCast_of_lt hfirst
    rcases Nat.lt_or_ge last.toNat (2 ^ 64) with hlast | hlast
    · obtain ⟨hcast', -⟩ := addressCast_of_lt hlast
      have hbind : ∀ u : Uninit, (addressCast 64 first >>= fun lo => addressCast 64 last >>= fun hi =>
          (queryRangeImpl w (IStream.over none (mapsText lines)) u lo hi).map (fun r => (r, ec)))
            = (queryRangeImpl w (IStream.over none (mapsText lines)) u (first.setWidth 64)
              (last.setWidth 64)).map (fun r => (r, ec)) := by
        intro u
        rw [hcast, hcast']
        rfl
      simp only [hbind, map_withEc_inj, queryRangeImpl_independent_iff, hnum,
        or_iff_left (Nat.not_le.mpr hlast)]
    · obtain ⟨what, herr⟩ := addressCast_of_le hlast
      refine iff_of_true ?_ (Or.inr (Or.inr hlast))
      intro u u'
      rw [hcast, herr]
      rfl
  · obtain ⟨what, herr⟩ := addressCast_of_le hfirst
    refine iff_of_true ?_ (Or.inr (Or.inl (by omega)))
    intro u u'
    rw [herr]
    rfl

/-- **The answers do not depend on the uninitialised locals** exactly if there is
    a line to read, or the arguments keep the loop from using them. -/
theorem queries_independent_iff (w v : Nat) (os : Process) (handle : Int)
    (lines : List MapsLine) (hopen : os.openFile (mapsPath handle) = some (mapsText lines))
    (address first last : BitVec v) (ec : ErrorCode) :
    ((∀ u u', queryEc w os u handle address ec = queryEc w os u' handle address ec)
        ↔ lines ≠ [] ∨ 2 ^ 64 - 1 ≤ address.toNat ∨ (w = 64 ∧ address.toNat = 2 ^ 64 - 2))
      ∧ ((∀ u u', queryRangeEc w os u handle first last ec
          = queryRangeEc w os u' handle first last ec)
        ↔ lines ≠ [] ∨ first.toNat ≠ 0 ∨ 2 ^ 64 ≤ last.toNat) :=
  ⟨queryEc_independent_iff hopen address ec, queryRangeEc_independent_iff hopen first last ec⟩

/-- A system on which every listing file is empty. -/
def emptyProcess : Process where
  openFile := fun _ => some []
  getpid := 1

theorem queries_independent_iff_sample :
    ((∀ u u', queryEc 64 sampleProcess u 1 (0x1800 : BitVec 64) {}
          = queryEc 64 sampleProcess u' 1 (0x1800 : BitVec 64) {})
        ↔ sampleListing.lines ≠ [] ∨ 2 ^ 64 - 1 ≤ (0x1800 : BitVec 64).toNat
          ∨ (64 = 64 ∧ (0x1800 : BitVec 64).toNat = 2 ^ 64 - 2))
      ∧ ((∀ u u', queryRangeEc 64 sampleProcess u 1 (0x1800 : BitVec 64) 0x2800 {}
          = queryRangeEc 64 sampleProcess u' 1 (0x1800 : BitVec 64) 0x2800 {})
        ↔ sampleListing.lines ≠ [] ∨ (0x1800 : BitVec 64).toNat ≠ 0
          ∨ 2 ^ 64 ≤ (0x2800 : BitVec 64).toNat) :=
  queries_independent_iff 64 64 sampleProcess 1 sampleListing.lines rfl 0x1800 0x1800 0x2800 {}

/-- The listing of a kernel thread: what `begin` held decides about the answer. -/
theorem queries_empty_depend :
    queryEc 64 emptyProcess (.startingAt 0x2000) 1 (0x1000 : BitVec 64) {}
        = .ok (BasicRegion.free 0 0x2000, {})
      ∧ queryEc 64 emptyProcess (.startingAt 0) 1 (0x1000 : BitVec 64) {}
        = .ok (BasicRegion.free 0 (BitVec.allOnes 64), {})
      ∧ ¬ ∀ u u', queryEc 64 emptyProcess u 1 (0x1000 : BitVec 64) {}
        = queryEc 64 emptyProcess u' 1 (0x1000 : BitVec 64) {} := by
  have hopen : emptyProcess.openFile (mapsPath 1) = some (mapsText []) := rfl
  have hmid : queryEc 64 emptyProcess (.startingAt 0x2000) 1 (0x1000 : BitVec 64) {}
      = .ok (BasicRegion.free 0 0x2000, {}) := by
    rw [queryEc_open hopen, addressCast_self]
    show Except.map _ (queryImpl 64 (IStream.over none (mapsText [])) _ _) = _
    rw [queryImpl_empty]
    rfl
  have hzero : queryEc 64 emptyProcess (.startingAt 0) 1 (0x1000 : BitVec 64) {}
      = .ok (BasicRegion.free 0 (BitVec.allOnes 64), {}) := by
    rw [queryEc_open hopen, addressCast_self]
    show Except.map _ (queryImpl 64 (IStream.over none (mapsText [])) _ _) = _
    rw [queryImpl_empty]
    rfl
  refine ⟨hmid, hzero, ?_⟩
  intro h
  have heq := h (.startingAt 0x2000) (.startingAt 0)
  rw [hmid, hzero] at heq
  exact absurd heq (by decide)

end VmUtils
