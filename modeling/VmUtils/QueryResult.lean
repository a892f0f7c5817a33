import VmUtils.MapsScan
import VmUtils.Lib.Intervals

/-! # What `query` returns on Linux

    At 64 bits no address cast fails, and `query_impl` on a listing is the pure
    scan `scanRegion`: the first record that starts above the address or ends at
    or above it decides.  For other address types the bounds of the same region go
    through the casts (`queryImpl_castBounds`).  The result is compared with the cell of the address
    space that contains the address (`IsCell`): the two agree exactly when the
    address is not the end of a mapping. -/

namespace VmUtils

open TextStream Intervals

variable {w : Nat}

/-- The bounds of a line as numbers. -/
def lineLo (l : MapsLine) : Nat := l.beginAddr.toNat

def lineHi (l : MapsLine) : Nat := l.endAddr.toNat

theorem Listing.ascending (L : Listing) : Ascending lineLo lineHi L.lines :=
  ⟨L.begin_lt_end, L.sorted⟩

/-- The decision of `query_impl` over records, `prev` being the last end read. -/
def scanRegion (a : BitVec 64) : BitVec 64 → List MapsLine → BasicRegion 64
  | prev, [] => BasicRegion.free prev (BitVec.allOnes 64)
  | prev, l :: ls =>
      if a < l.beginAddr then BasicRegion.free prev l.beginAddr
      else if l.endAddr < a then scanRegion a l.endAddr ls
      else l.region

/-- A step at 64 bits, without the casts. -/
theorem queryStep_64 (a : BitVec 64) (l : Locals) (b e : BitVec 64) (prot : ProtChars) :
    queryStep 64 a l b e prot
      = if a < b then .ok (.stop (BasicRegion.free l.endAddr b))
        else if e < a then
          .ok (.again { beginAddr := b, endAddr := e, prot := l.prot })
        else .ok (.stop (BasicRegion.mapped b e (transformProt prot) (prot 3 != '-'))) := by
  simp only [queryStep, addressCast_self]
  rfl

/-- A record that the scan passes by does not decide. -/
theorem not_decides {a : BitVec 64} {m : MapsLine} (hb : ¬ a < m.beginAddr)
    (he : m.endAddr < a) : ¬ (a < m.beginAddr ∨ a ≤ m.endAddr) := by
  rintro (h | h)
  · exact hb h
  · exact absurd he (Nat.not_lt.mpr h)

theorem decides_cons_iff {a : BitVec 64} {m : MapsLine} (hb : ¬ a < m.beginAddr)
    (he : m.endAddr < a) (ms : List MapsLine) :
    (∃ n ∈ m :: ms, a < n.beginAddr ∨ a ≤ n.endAddr)
      ↔ ∃ n ∈ ms, a < n.beginAddr ∨ a ≤ n.endAddr := by
  simp only [List.mem_cons, exists_eq_or_imp, or_iff_right (not_decides hb he)]

/-- The locals behind records that are passed by. -/
def Locals.behind (l : Locals) : List MapsLine → Locals
  | [] => l
  | m :: ms => Locals.behind { beginAddr := m.beginAddr, endAddr := m.endAddr, prot := l.prot } ms

/-- **The scan of the records**: the first one that decides, or all are passed by. -/
theorem queryScan_64 (a : BitVec 64) (lines : List MapsLine) (l : Locals) :
    queryScan 64 a lines l
      = if ∃ m ∈ lines, a < m.beginAddr ∨ a ≤ m.endAddr then
          .ok (.stop (scanRegion a l.endAddr lines))
        else .ok (.again (l.behind lines)) := by
  induction lines generalizing l with
  | nil =>
      rw [if_neg (by rintro ⟨m, hm, -⟩; exact nomatch hm)]
      rfl
  | cons m ms ih =>
      show followedBy (queryStep 64 a l m.beginAddr m.endAddr m.perms) (queryScan 64 a ms) = _
      rw [queryStep_64, scanRegion]
      by_cases hb : a < m.beginAddr
      · rw [if_pos hb, if_pos hb, if_pos ⟨m, List.mem_cons_self .., Or.inl hb⟩]
        rfl
      · rw [if_neg hb, if_neg hb]
        by_cases he : m.endAddr < a
        · rw [if_pos he, if_pos he]
          simp only [decides_cons_iff hb he]
          exact ih _
        · have hle : a ≤ m.endAddr := Nat.le_of_not_lt he
          rw [if_neg he, if_neg he, if_pos ⟨m, List.mem_cons_self .., Or.inr hle⟩]
          rfl

/-- The last of the records that are passed by, which the locals hold, is passed by
    again. -/
theorem behind_passed {a : BitVec 64} {lines : List MapsLine} {l : Locals}
    (h : ¬ ∃ m ∈ lines, a < m.beginAddr ∨ a ≤ m.endAddr)
    (hl : lines = [] → ¬ a < l.beginAddr ∧ l.endAddr < a) :
    ¬ a < (l.behind lines).beginAddr ∧ (l.behind lines).endAddr < a := by
  induction lines generalizing l with
  | nil => exact hl rfl
  | cons m ms ih =>
      have hm : ¬ (a < m.beginAddr ∨ a ≤ m.endAddr) :=
        fun hd => h ⟨m, List.mem_cons_self .., hd⟩
      refine ih (fun ⟨n, hn, hd⟩ => h ⟨n, List.mem_cons_of_mem _ hn, hd⟩) (fun _ => ?_)
      exact ⟨fun hb => hm (Or.inl hb), Nat.lt_of_not_le (fun he => hm (Or.inr he))⟩

/-- **The loop on a nonempty list of records.**  The locals on entry matter only if
    there is no record at all. -/
theorem queryLoop_end {lines : List MapsLine} (h : lines ≠ []) (a : BitVec 64) (l : Locals) :
    forLines (queryLoop 64 a) (IStream.over none (mapsText lines)) l
      = if ∃ m ∈ lines, a < m.beginAddr ∨ a ≤ m.endAddr then
          .ok (.stop (scanRegion a l.endAddr lines))
        else .ok (.again (l.behind lines)) := by
  rw [queryLoop_text, queryScan_64]
  by_cases hd : ∃ m ∈ lines, a < m.beginAddr ∨ a ≤ m.endAddr
  · rw [if_pos hd]
    rfl
  · -- the round at the end of the text works on the values of the last record
    obtain ⟨hb, he⟩ := behind_passed (l := l) hd (fun hnil => absurd hnil h)
    rw [if_neg hd]
    show queryStep 64 a (l.behind lines) _ _ _ = _
    rw [queryStep_64, if_neg hb, if_pos he]

/-! ## The casts of the bounds -/

/-- A region with its bounds cast. -/
def BasicRegion.castBounds (w : Nat) (r : BasicRegion 64) : Except Exn (BasicRegion w) := do
  let lo ← addressCast w r.beginAddr
  let hi ← addressCast w r.endAddr
  return ⟨lo, hi, r.protection, r.used, r.shared, r.guarded⟩

/-- A round of `query_impl` casts the bounds of what it returns. -/
theorem queryBody_castBounds (a : BitVec 64) (s : IStream Exn) (l : Locals) :
    queryBody w a s l = queryBody 64 a s l >>= Round.bindStop (BasicRegion.castBounds w) := by
  simp only [queryBody, addressCast_self]
  rcases s.extractHex l.beginAddr with e | ⟨s₁, b⟩
  · rfl
  simp only [bind, Except.bind]
  by_cases hb : a < b
  · rw [if_pos hb, if_pos hb]
    show _ = Except.map Round.stop (do
      let lo ← addressCast w l.endAddr
      let hi ← addressCast w b
      return BasicRegion.free lo hi)
    cases addressCast w l.endAddr with
    | error e => rfl
    | ok lo => cases addressCast w b <;> rfl
  · rw [if_neg hb, if_neg hb]
    rcases s₁.ignore with e | s₂
    · rfl
    dsimp only
    rcases s₂.extractHex l.endAddr with e | ⟨s₃, e⟩
    · rfl
    dsimp only
    by_cases he : e < a
    · rw [if_pos he, if_pos he]
      rfl
    · rw [if_neg he, if_neg he]
      rcases s₃.ignore with e' | s₄
      · rfl
      dsimp only
      rcases s₄.read l.prot with e' | ⟨s₅, prot⟩
      · rfl
      show _ = Except.map Round.stop (do
        let lo ← addressCast w b
        let hi ← addressCast w e
        return BasicRegion.mapped lo hi (transformProt prot) (prot 3 != '-'))
      cases addressCast w b with
      | error e => rfl
      | ok lo => cases addressCast w e <;> rfl

/-- The end of the last record, `prev` if there is none. -/
def lastEnd (prev : BitVec 64) (lines : List MapsLine) : BitVec 64 :=
  match lines.getLast? with
  | some l => l.endAddr
  | none => prev

theorem lastEnd_cons (prev : BitVec 64) (m : MapsLine) (ms : List MapsLine) :
    lastEnd prev (m :: ms) = lastEnd m.endAddr ms := by
  cases ms with
  | nil => rfl
  | cons m' ms =>
      rw [lastEnd, lastEnd, List.getLast?_cons_cons]
      cases h : (m' :: ms).getLast? with
      | none => exact absurd (List.getLast?_eq_none_iff.mp h) (List.cons_ne_nil m' ms)
      | some z => rfl

theorem behind_endAddr (l : Locals) (lines : List MapsLine) :
    (l.behind lines).endAddr = lastEnd l.endAddr lines := by
  induction lines generalizing l with
  | nil => rfl
  | cons m ms ih =>
      rw [lastEnd_cons]
      exact ih _

/-- The free region above the last record: its end is the greatest address of
    the target type. -/
def aboveResult (w : Nat) (lo : BitVec 64) : Except Exn (BasicRegion w) := do
  let lo ← addressCast w lo
  return BasicRegion.free lo (addressCastUnchecked w (BitVec.allOnes w))

/-- What is returned after the loop. -/
def roundResult (w : Nat) : Round Locals (BasicRegion w) → Except Exn (BasicRegion w)
  | .stop region => .ok region
  | .again l => aboveResult w l.endAddr

theorem queryImpl_eq_bind (maps : IStream Exn) (u : Uninit) (a : BitVec 64) :
    queryImpl w maps u a = forLines (queryLoop w a) maps u.locals >>= roundResult w := by
  rw [queryImpl]
  cases forLines (queryLoop w a) maps u.locals with
  | error e => rfl
  | ok round => cases round <;> rfl

/-- **`query_impl` on a nonempty list of records**, for any address type: the bounds
    of the region that the 64-bit scan finds go through the casts. -/
theorem queryImpl_castBounds {lines : List MapsLine} (h : lines ≠ []) (u : Uninit)
    (a : BitVec 64) :
    queryImpl w (IStream.over none (mapsText lines)) u a
      = if ∃ m ∈ lines, a < m.beginAddr ∨ a ≤ m.endAddr then
          (scanRegion a 0 lines).castBounds w
        else aboveResult w (lastEnd 0 lines) := by
  rw [queryImpl_eq_bind, forLines_bindStop (b := queryLoop 64 a) (queryBody_castBounds a),
    queryLoop_end h]
  by_cases hd : ∃ m ∈ lines, a < m.beginAddr ∨ a ≤ m.endAddr
  · rw [if_pos hd, if_pos hd]
    show Except.map Round.stop ((scanRegion a 0 lines).castBounds w) >>= roundResult w = _
    cases (scanRegion a 0 lines).castBounds w <;> rfl
  · rw [if_neg hd, if_neg hd]
    show aboveResult w (u.locals.behind lines).endAddr = _
    rw [behind_endAddr]
    rfl

/-- At 64 bits no cast fails. -/
theorem castBounds_64 (r : BasicRegion 64) : r.castBounds 64 = .ok r := by
  rw [BasicRegion.castBounds, addressCast_self, addressCast_self]
  rfl

theorem scanRegion_above {a prev : BitVec 64} {lines : List MapsLine}
    (h : ¬ ∃ m ∈ lines, a < m.beginAddr ∨ a ≤ m.endAddr) :
    scanRegion a prev lines = BasicRegion.free (lastEnd prev lines) (BitVec.allOnes 64) := by
  induction lines generalizing prev with
  | nil => rfl
  | cons m ms ih =>
      have hm : ¬ (a < m.beginAddr ∨ a ≤ m.endAddr) :=
        fun hd => h ⟨m, List.mem_cons_self .., hd⟩
      have he : m.endAddr < a := Nat.lt_of_not_le (fun hle => hm (Or.inr hle))
      rw [scanRegion, if_neg (fun hb => hm (Or.inl hb)), if_pos he, lastEnd_cons]
      exact ih (fun ⟨n, hn, hd⟩ => h ⟨n, List.mem_cons_of_mem _ hn, hd⟩)

/-- **`query_impl` on a nonempty listing** is the record scan, whatever the
    uninitialised locals hold. -/
theorem queryImpl_text {lines : List MapsLine} (h : lines ≠ []) (u : Uninit) (a : BitVec 64) :
    queryImpl 64 (IStream.over none (mapsText lines)) u a = .ok (scanRegion a 0 lines) := by
  rw [queryImpl_castBounds h, castBounds_64]
  by_cases hd : ∃ m ∈ lines, a < m.beginAddr ∨ a ≤ m.endAddr
  · rw [if_pos hd]
  · rw [if_neg hd, scanRegion_above hd, aboveResult, addressCast_self, addressCastUnchecked_self]
    rfl

/-- With exceptions enabled the scan succeeds exactly if a record decides. -/
theorem queryImpl_text_throws (lines : List MapsLine) (u : Uninit) (a : BitVec 64) :
    queryImpl 64 (IStream.over (some .iosFailure) (mapsText lines)) u a
      = if ∃ m ∈ lines, a < m.beginAddr ∨ a ≤ m.endAddr then .ok (scanRegion a 0 lines)
        else .error .iosFailure := by
  rw [queryImpl_eq_bind, queryLoop_text_throws, queryScan_64]
  by_cases hd : ∃ m ∈ lines, a < m.beginAddr ∨ a ≤ m.endAddr
  · rw [if_pos hd, if_pos hd]
    rfl
  · rw [if_neg hd, if_neg hd]
    rfl

/-- `query(handle, address, ec)` on a nonempty listing. -/
theorem queryEc_listing {os : Process} {handle : Int} {L : Listing}
    (hopen : os.openFile (mapsPath handle) = some L.text) (hne : L.lines ≠ [])
    (u : Uninit) (a : BitVec 64) (ec : ErrorCode) :
    queryEc 64 os u handle a ec = .ok (scanRegion a 0 L.lines, ec) := by
  have h := queryImpl_text hne u a
  simp only [queryEc, hopen, addressCast_self, bind, Except.bind, Listing.text, h]
  rfl

/-- `query(handle, address)` on a listing. -/
theorem query_listing {os : Process} {handle : Int} {L : Listing}
    (hopen : os.openFile (mapsPath handle) = some L.text) (u : Uninit) (a : BitVec 64) :
    query 64 os u handle a
      = if ∃ m ∈ L.lines, a < m.beginAddr ∨ a ≤ m.endAddr then .ok (scanRegion a 0 L.lines)
        else .error .iosFailure := by
  have h := queryImpl_text_throws L.lines u a
  simp only [query, hopen, addressCast_self, bind, Except.bind, Listing.text, h]

/-! ## The cell of an address -/

/-- `r` describes the cell of the address space that contains `a`: the mapping
    `a` lies in, or else the gap around it. -/
structure IsCell (L : Listing) (a : BitVec 64) (r : BasicRegion 64) : Prop where
  mapped : ∀ l ∈ L.lines, l.Contains a →
    r.used = true ∧ r.begin = l.beginAddr
      ∧ r.size.toNat = l.endAddr.toNat - l.beginAddr.toNat
      ∧ r.protection.readable = (l.perms 0 == 'r')
      ∧ r.protection.writable = (l.perms 1 == 'w')
      ∧ r.protection.executable = (l.perms 2 == 'x')
  free : (∀ l ∈ L.lines, ¬ l.Contains a) →
    r.used = false
      ∧ IsGap lineLo lineHi 0 (2 ^ 64 - 1) L.lines a.toNat
          (r.begin.toNat, (r.begin + r.size).toNat)

/-- The region of a line has its bounds, its size and its protection. -/
theorem region_describes {l : MapsLine} (hlt : l.beginAddr < l.endAddr) (hp : l.KernelPerms) :
    l.region.used = true ∧ l.region.begin = l.beginAddr
      ∧ l.region.size.toNat = l.endAddr.toNat - l.beginAddr.toNat
      ∧ l.region.protection.readable = (l.perms 0 == 'r')
      ∧ l.region.protection.writable = (l.perms 1 == 'w')
      ∧ l.region.protection.executable = (l.perms 2 == 'x') := by
  have hprot : l.region.protection = l.protection := transformProt_eq hp
  obtain ⟨hr, hw, hx⟩ := protection_bits l
  refine ⟨rfl, rfl, ?_, ?_, ?_, ?_⟩
  · show (l.endAddr - l.beginAddr).toNat = _
    bv_omega
  · rw [hprot, hr]
  · rw [hprot, hw]
  · rw [hprot, hx]

/-- Away from the ends of mappings the scan finds the mapping or the gap. -/
theorem scanRegion_spec {a : BitVec 64} {lines : List MapsLine} {prev : BitVec 64}
    (hasc : Ascending lineLo lineHi lines) (hprev : ∀ l ∈ lines, prev ≤ l.beginAddr)
    (ha : ∀ l ∈ lines, l.endAddr ≠ a) :
    (∀ l ∈ lines, l.Contains a → scanRegion a prev lines = l.region) ∧
    ((∀ l ∈ lines, ¬ l.Contains a) →
      (scanRegion a prev lines).used = false ∧
      IsGap lineLo lineHi prev.toNat (2 ^ 64 - 1) lines a.toNat
        ((scanRegion a prev lines).beginAddr.toNat, (scanRegion a prev lines).endAddr.toNat)) := by
  induction lines generalizing prev with
  | nil =>
      constructor
      · intro l hl
        exact nomatch hl
      · intro _
        exact ⟨rfl, isGap_nil ..⟩
  | cons m ms ih =>
      have hlt : m.beginAddr < m.endAddr := hasc.head_lt
      have hle : ∀ l ∈ ms, m.endAddr ≤ l.beginAddr := hasc.head_le
      rw [scanRegion]
      by_cases hb : a < m.beginAddr
      · -- in front of the first mapping
        rw [if_pos hb]
        constructor
        · intro l hl hc
          exfalso
          obtain ⟨hc, -⟩ := hc
          rcases List.mem_cons.mp hl with rfl | hl
          · bv_omega
          · have := hle l hl
            bv_omega
        · intro _
          have htop : lineLo m ≤ 2 ^ 64 - 1 := Nat.le_sub_one_of_lt m.beginAddr.isLt
          exact ⟨rfl, hasc.isGap_head hb htop⟩
      · rw [if_neg hb]
        by_cases he : m.endAddr < a
        · -- behind the first mapping
          rw [if_pos he]
          obtain ⟨hin, hout⟩ := ih hasc.tail hle (fun l hl => ha l (List.mem_cons_of_mem _ hl))
          refine ⟨?_, ?_⟩
          · intro l hl hc
            rcases List.mem_cons.mp hl with rfl | hl
            · obtain ⟨-, hc⟩ := hc
              bv_omega
            · exact hin l hl hc
          · intro hnone
            obtain ⟨hu, hg⟩ := hout (fun l hl => hnone l (List.mem_cons_of_mem _ hl))
            exact ⟨hu, hg.cons hlt (hprev m (List.mem_cons_self ..)) (BitVec.le_of_lt he)⟩
        · -- inside it: `a` is not its end
          rw [if_neg he]
          have hne := ha m (List.mem_cons_self ..)
          have hc : m.Contains a := ⟨by bv_omega, by bv_omega⟩
          refine ⟨?_, fun hnone => absurd hc (hnone m (List.mem_cons_self ..))⟩
          intro l hl hcl
          rw [hasc.eq_of_contains (List.mem_cons_self ..) hl hc hcl]

/-- At the end of a mapping the scan answers with that mapping. -/
theorem scanRegion_at_end {lines : List MapsLine} (prev : BitVec 64)
    (hasc : Ascending lineLo lineHi lines) {l : MapsLine} (hl : l ∈ lines) :
    scanRegion l.endAddr prev lines = l.region := by
  induction lines generalizing prev with
  | nil => exact nomatch hl
  | cons m ms ih =>
      have hlt : m.beginAddr < m.endAddr := hasc.head_lt
      rw [scanRegion]
      rcases List.mem_cons.mp hl with rfl | hl
      · rw [if_neg (by bv_omega), if_neg (by bv_omega)]
      · have hle : m.endAddr ≤ l.beginAddr := hasc.head_le l hl
        have hlt' : l.beginAddr < l.endAddr := hasc.tail.nonempty l hl
        rw [if_neg (by bv_omega), if_pos (by bv_omega)]
        exact ih _ hasc.tail hl

/-- The region of a mapping does not describe the cell of its end. -/
theorem not_isCell_at_end {L : Listing} {l : MapsLine} (hl : l ∈ L.lines) :
    ¬ IsCell L l.endAddr l.region := by
  rintro ⟨hmapped, hfree⟩
  by_cases h : ∃ m ∈ L.lines, m.Contains l.endAddr
  · -- a cell that begins like `l` would be `l`, which ends too early
    obtain ⟨m, hm, hc⟩ := h
    obtain ⟨-, hbegin, -⟩ := hmapped m hm hc
    have hlm : l = m := L.ascending.eq_of_lo_eq hl hm (congrArg BitVec.toNat hbegin)
    rw [← hlm] at hc
    exact absurd hc.2 (by bv_omega)
  · obtain ⟨hu, -⟩ := hfree (fun m hm hc => h ⟨m, hm, hc⟩)
    exact nomatch hu

/-- **`query(handle, a, ec)` returns the cell of `a`** exactly when `a` is not
    the end of a mapping. -/
theorem queryEc_isCell_iff (os : Process) (u : Uninit) (handle : Int) (L : Listing)
    (a : BitVec 64) (ec : ErrorCode) (hopen : os.openFile (mapsPath handle) = some L.text)
    (hne : L.lines ≠ []) :
    (∃ r, queryEc 64 os u handle a ec = .ok (r, ec) ∧ IsCell L a r)
      ↔ ∀ l ∈ L.lines, l.endAddr ≠ a := by
  rw [queryEc_listing hopen hne]
  constructor
  · rintro ⟨r, hr, hcell⟩ l hl rfl
    obtain rfl : scanRegion l.endAddr 0 L.lines = r := (Prod.mk.inj (Except.ok.inj hr)).1
    rw [scanRegion_at_end 0 L.ascending hl] at hcell
    exact not_isCell_at_end hl hcell
  · intro ha
    have hzero : ∀ l ∈ L.lines, (0 : BitVec 64) ≤ l.beginAddr := fun l _ => Nat.zero_le _
    obtain ⟨hin, hout⟩ := scanRegion_spec L.ascending hzero ha
    refine ⟨_, rfl, ?_, ?_⟩
    · intro l hl hc
      rw [hin l hl hc]
      exact region_describes (L.begin_lt_end l hl) (L.kernelPerms l hl)
    · intro hnone
      obtain ⟨hu, hg⟩ := hout hnone
      rw [begin_add_size]
      exact ⟨hu, hg⟩

/-- A system on which every listing file holds the sample. -/
def sampleProcess : Process where
  openFile := fun _ => some sampleListing.text
  getpid := 1

/-- Some contents of the uninitialised locals. -/
def sampleUninit : Uninit where
  beginAddr := 0xdead
  prot := fun _ => '?'

theorem queryEc_isCell_iff_sample :
    (∃ r, queryEc 64 sampleProcess sampleUninit 1 (0x1800 : BitVec 64) {} = .ok (r, {})
        ∧ IsCell sampleListing 0x1800 r)
      ↔ ∀ l ∈ sampleListing.lines, l.endAddr ≠ 0x1800 :=
  queryEc_isCell_iff sampleProcess sampleUninit 1 sampleListing 0x1800 {} rfl (by decide)

/-- `query(0x2000)`, the first byte of the second mapping, answers with the
    first one. -/
theorem queryEc_sample_at_end :
    ¬ ∃ r, queryEc 64 sampleProcess sampleUninit 1 (0x2000 : BitVec 64) {} = .ok (r, {})
      ∧ IsCell sampleListing 0x2000 r := by
  rintro ⟨r, hr, hcell⟩
  rw [queryEc_listing rfl (by decide)] at hr
  obtain rfl := (Prod.mk.inj (Except.ok.inj hr)).1
  have hmem : MapsLine.anonymous 0x1000 0x2000 true false false false ∈ sampleListing.lines :=
    List.mem_cons_self ..
  exact not_isCell_at_end hmem hcell

end VmUtils
