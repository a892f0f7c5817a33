import VmUtils.HalfOpenRange

/-! # The shared flag

    Both scans hand `prot[3] != '-'` to the region as its shared flag.  The
    kernel writes `p` or `s` there and never `-`, so every region that is built
    from a line is reported as shared, the private ones too. -/

namespace VmUtils

open TextStream Intervals

/-- The region stands for the line: a used one with the line's bounds. -/
structure BuiltFrom (l : MapsLine) (r : BasicRegion 64) : Prop where
  used : r.used = true
  begin_eq : r.begin = l.beginAddr
  end_eq : r.begin + r.size = l.endAddr

/-- The flag of a region built from a line is the line's fourth character. -/
def FlagOfLine (L : Listing) (r : BasicRegion 64) : Prop :=
  ∀ l ∈ L.lines, BuiltFrom l r → (r.shared = true ↔ l.perms 3 = 's')

theorem builtFrom_region (l : MapsLine) : BuiltFrom l l.region :=
  ⟨rfl, rfl, begin_add_size l.region⟩

/-- Neither `p` nor `s` is a dash. -/
theorem region_shared {l : MapsLine} (h : l.KernelPerms) : l.region.shared = true := by
  show (l.perms 3 != '-') = true
  rcases h.share with hp | hs
  · rw [hp]
    rfl
  · rw [hs]
    rfl

/-- The flag is right for the region of a shared mapping only. -/
theorem flagOfLine_region {L : Listing} {l : MapsLine} (hl : l ∈ L.lines) :
    FlagOfLine L l.region ↔ l.perms 3 = 's' := by
  have hshared := region_shared (L.kernelPerms l hl)
  constructor
  · intro h
    exact (h l hl (builtFrom_region l)).mp hshared
  · intro hs m hm hbuilt
    -- a line with the same start is the same line
    have hlm : l = m := L.ascending.eq_of_lo_eq hl hm (congrArg BitVec.toNat hbuilt.begin_eq)
    rw [← hlm]
    exact iff_of_true hshared hs

/-- A free region is built from no line. -/
theorem flagOfLine_free (L : Listing) (b e : BitVec 64) :
    FlagOfLine L (BasicRegion.free b e) := by
  intro l _ hbuilt
  exact nomatch hbuilt.used

/-! ## `query` -/

/-- The line that answers for `a`: its closed interval contains `a`, and no line
    in front of it ends there. -/
def Answering (L : Listing) (a : BitVec 64) (l : MapsLine) : Prop :=
  l.beginAddr ≤ a ∧ a ≤ l.endAddr ∧ ∀ m ∈ L.lines, m.endAddr = a → m = l

/-- The scan answers with the region of one line or with a free one. -/
theorem scanRegion_cases {a : BitVec 64} {lines : List MapsLine} {prev : BitVec 64}
    (hasc : Ascending lineLo lineHi lines) :
    (∃ b e, scanRegion a prev lines = BasicRegion.free b e
      ∧ ∀ l ∈ lines, ¬ (l.beginAddr ≤ a ∧ a ≤ l.endAddr))
    ∨ ∃ l ∈ lines, scanRegion a prev lines = l.region ∧ l.beginAddr ≤ a ∧ a ≤ l.endAddr
      ∧ ∀ m ∈ lines, m.endAddr = a → m = l := by
  induction lines generalizing prev with
  | nil =>
      refine Or.inl ⟨prev, BitVec.allOnes 64, rfl, ?_⟩
      intro l hl
      exact nomatch hl
  | cons x ls ih =>
      have hlt : x.beginAddr < x.endAddr := hasc.head_lt
      have hle : ∀ l ∈ ls, x.endAddr ≤ l.beginAddr := hasc.head_le
      rw [scanRegion]
      by_cases hb : a < x.beginAddr
      · rw [if_pos hb]
        refine Or.inl ⟨_, _, rfl, ?_⟩
        rintro l hl ⟨hbegin, -⟩
        rcases List.mem_cons.mp hl with rfl | hl
        · bv_omega
        · have := hle l hl
          bv_omega
      · rw [if_neg hb]
        by_cases he : x.endAddr < a
        · rw [if_pos he]
          rcases ih hasc.tail with ⟨b, e, heq, hnone⟩ | ⟨l, hl, heq, h1, h2, huniq⟩
          · refine Or.inl ⟨b, e, heq, ?_⟩
            intro l hl hc
            rcases List.mem_cons.mp hl with rfl | hl
            · exact absurd he (Nat.not_lt.mpr hc.2)
            · exact hnone l hl hc
          · refine Or.inr ⟨l, List.mem_cons_of_mem _ hl, heq, h1, h2, ?_⟩
            intro m hm hma
            rcases List.mem_cons.mp hm with rfl | hm
            · bv_omega
            · exact huniq m hm hma
        · rw [if_neg he]
          refine Or.inr ⟨x, List.mem_cons_self .., rfl, by bv_omega, by bv_omega, ?_⟩
          intro m hm hma
          rcases List.mem_cons.mp hm with rfl | hm
          · rfl
          · -- a later line ends behind the end of this one
            have hle' := hle m hm
            have hlt' : m.beginAddr < m.endAddr := hasc.tail.nonempty m hm
            bv_omega

/-- At most one line answers. -/
theorem answering_unique {L : Listing} {a : BitVec 64} {l l' : MapsLine} (hl : l ∈ L.lines)
    (hl' : l' ∈ L.lines) (h : Answering L a l) (h' : Answering L a l') : l = l' := by
  obtain ⟨hb, he, huniq⟩ := h
  obtain ⟨hb', he', huniq'⟩ := h'
  rcases L.ascending.trichotomy l hl l' hl' with heq | hle | hle
  · exact heq
  · have hle1 : l.endAddr ≤ l'.beginAddr := hle
    exact huniq' l hl (by bv_omega)
  · have hle1 : l'.endAddr ≤ l.beginAddr := hle
    exact (huniq l' hl' (by bv_omega)).symm

/-- `query` reads the flag of the line that answers. -/
theorem scanRegion_flag_iff (L : Listing) (a : BitVec 64) :
    FlagOfLine L (scanRegion a 0 L.lines)
      ↔ ∀ l ∈ L.lines, Answering L a l → l.perms 3 = 's' := by
  rcases scanRegion_cases L.ascending with ⟨b, e, heq, hnone⟩ | ⟨l, hl, heq, h1, h2, huniq⟩
  · rw [heq]
    refine iff_of_true (flagOfLine_free L b e) ?_
    rintro l hl ⟨hb, he, -⟩
    exact absurd ⟨hb, he⟩ (hnone l hl)
  · rw [heq, flagOfLine_region hl]
    constructor
    · intro hs m hm hans
      rw [answering_unique hm hl hans ⟨h1, h2, huniq⟩]
      exact hs
    · intro h
      exact h l hl ⟨h1, h2, huniq⟩

/-- Without a line there is nothing to build from. -/
theorem flagOfLine_of_nil {L : Listing} (hnil : L.lines = []) (r : BasicRegion 64) :
    FlagOfLine L r := by
  intro l hl
  rw [hnil] at hl
  exact nomatch hl

/-- `query(handle, a, ec)` returns on the empty listing as well. -/
theorem queryEc_empty_ok {os : Process} {handle : Int} {L : Listing}
    (hopen : os.openFile (mapsPath handle) = some L.text) (hnil : L.lines = []) (u : Uninit)
    (a : BitVec 64) (ec : ErrorCode) : ∃ r, queryEc 64 os u handle a ec = .ok (r, ec) := by
  have htext := L.text_of_nil hnil
  rw [queryEc_open (hopen.trans (congrArg some htext))]
  simp only [addressCast_self, bind, Except.bind, queryImpl_empty]
  by_cases hb : a < u.beginAddr
  · rw [if_pos hb, freeResult]
    simp only [addressCast_self]
    exact ⟨_, rfl⟩
  · rw [if_neg hb]
    by_cases he : 0 < a
    · rw [if_pos he, aboveResult_zero]
      exact ⟨_, rfl⟩
    · rw [if_neg he, initialResult]
      simp only [addressCast_self]
      exact ⟨_, rfl⟩

theorem queryEc_flag_iff {os : Process} {handle : Int} {L : Listing}
    (hopen : os.openFile (mapsPath handle) = some L.text) (u : Uninit) (a : BitVec 64)
    (ec : ErrorCode) :
    (∃ r, queryEc 64 os u handle a ec = .ok (r, ec) ∧ FlagOfLine L r)
      ↔ ∀ l ∈ L.lines, Answering L a l → l.perms 3 = 's' := by
  by_cases hnil : L.lines = []
  · obtain ⟨r, hr⟩ := queryEc_empty_ok hopen hnil u a ec
    refine iff_of_true ⟨r, hr, flagOfLine_of_nil hnil r⟩ ?_
    intro l hl
    rw [hnil] at hl
    exact nomatch hl
  · rw [queryEc_listing hopen hnil, ← scanRegion_flag_iff]
    exact exists_ok_iff

/-! ## `query_range` -/

/-- `query_range` reads the flags of the lines that touch the range. -/
theorem withGaps_flag_iff (L : Listing) (first last : BitVec 64) :
    (∀ r ∈ withGaps ((collected first last L.lines).map MapsLine.region), FlagOfLine L r)
      ↔ ∀ l ∈ L.lines, l.Touches first last → l.perms 3 = 's' := by
  constructor
  · intro h l hl ht
    refine (flagOfLine_region hl).mp (h _ (mem_withGaps.mpr (Or.inl ?_)))
    exact List.mem_map_of_mem (mem_collected.mpr ⟨hl, ht⟩)
  · intro h r hr
    rcases mem_withGaps.mp hr with hr | ⟨p, p', -, -, rfl⟩
    · obtain ⟨l, hl, rfl⟩ := List.mem_map.mp hr
      obtain ⟨hmem, ht⟩ := mem_collected.mp hl
      exact (flagOfLine_region hmem).mpr (h l hmem ht)
    · exact flagOfLine_free L _ _

theorem queryRangeEc_flag_iff {os : Process} {handle : Int} {L : Listing}
    (hopen : os.openFile (mapsPath handle) = some L.text) (u : Uninit)
    (first last : BitVec 64) (ec : ErrorCode) :
    (∃ regions, queryRangeEc 64 os u handle first last ec = .ok (regions, ec)
        ∧ ∀ r ∈ regions, FlagOfLine L r)
      ↔ ∀ l ∈ L.lines, l.Touches first last → l.perms 3 = 's' := by
  by_cases hnil : L.lines = []
  · have htext := L.text_of_nil hnil
    obtain ⟨regions, hr, -⟩ :=
      queryRangeEc_empty (hopen.trans (congrArg some htext)) u first last ec
    refine iff_of_true ⟨regions, hr, fun r _ => flagOfLine_of_nil hnil r⟩ ?_
    intro l hl
    rw [hnil] at hl
    cases hl
  · rw [queryRangeEc_listing hopen hnil, ← withGaps_flag_iff]
    exact exists_ok_iff

/-- On a nonempty listing every used region of the two queries is built from a
    line, so the flag is that of a line. -/
theorem used_builtFrom {os : Process} {handle : Int} {L : Listing}
    (hopen : os.openFile (mapsPath handle) = some L.text) (hne : L.lines ≠ []) (u : Uninit)
    (a first last : BitVec 64) (ec : ErrorCode) :
    (∀ r, queryEc 64 os u handle a ec = .ok (r, ec) → r.used = true →
        ∃ l ∈ L.lines, BuiltFrom l r)
      ∧ ∀ regions, queryRangeEc 64 os u handle first last ec = .ok (regions, ec) →
        ∀ r ∈ regions, r.used = true → ∃ l ∈ L.lines, BuiltFrom l r := by
  constructor
  · intro r hr hused
    rw [queryEc_listing hopen hne] at hr
    rw [← (Prod.mk.inj (Except.ok.inj hr)).1] at hused ⊢
    rcases scanRegion_cases L.ascending with ⟨b, e, heq, -⟩ | ⟨l, hl, heq, -⟩
    · rw [heq] at hused
      exact nomatch hused
    · rw [heq]
      exact ⟨l, hl, builtFrom_region l⟩
  · intro regions hr r hmem hused
    rw [queryRangeEc_listing hopen hne] at hr
    rw [← (Prod.mk.inj (Except.ok.inj hr)).1] at hmem
    rcases mem_withGaps.mp hmem with hmem | ⟨p, p', -, -, rfl⟩
    · obtain ⟨l, hl, rfl⟩ := List.mem_map.mp hmem
      exact ⟨l, (mem_collected.mp hl).1, builtFrom_region l⟩
    · exact nomatch hused

/-- **The shared flag** is the line's exactly where the lines that are read are
    those of shared mappings. -/
theorem queries_shared_iff (os : Process) (u : Uninit) (handle : Int) (L : Listing)
    (a first last : BitVec 64) (ec : ErrorCode)
    (hopen : os.openFile (mapsPath handle) = some L.text) :
    ((∃ r, queryEc 64 os u handle a ec = .ok (r, ec) ∧ FlagOfLine L r)
      ↔ ∀ l ∈ L.lines, Answering L a l → l.perms 3 = 's')
    ∧ ((∃ regions, queryRangeEc 64 os u handle first last ec = .ok (regions, ec)
          ∧ ∀ r ∈ regions, FlagOfLine L r)
      ↔ ∀ l ∈ L.lines, l.Touches first last → l.perms 3 = 's') :=
  ⟨queryEc_flag_iff hopen u a ec, queryRangeEc_flag_iff hopen u first last ec⟩

theorem queries_shared_iff_sample :
    ((∃ r, queryEc 64 sampleProcess sampleUninit 1 (0x1800 : BitVec 64) {} = .ok (r, {})
        ∧ FlagOfLine sampleListing r)
      ↔ ∀ l ∈ sampleListing.lines, Answering sampleListing 0x1800 l → l.perms 3 = 's')
    ∧ ((∃ regions, queryRangeEc 64 sampleProcess sampleUninit 1 (0x1800 : BitVec 64) 0x2800 {}
            = .ok (regions, {})
          ∧ ∀ r ∈ regions, FlagOfLine sampleListing r)
      ↔ ∀ l ∈ sampleListing.lines, l.Touches 0x1800 0x2800 → l.perms 3 = 's') :=
  queries_shared_iff sampleProcess sampleUninit 1 sampleListing 0x1800 0x1800 0x2800 {} rfl

/-- `query(0x1800)` reports the private mapping `r--p` as shared. -/
theorem queryEc_private_shared :
    ¬ ∃ r, queryEc 64 sampleProcess sampleUninit 1 (0x1800 : BitVec 64) {} = .ok (r, {})
      ∧ FlagOfLine sampleListing r := by
  rintro ⟨r, hr, hflag⟩
  rw [queryEc_listing rfl (by decide)] at hr
  obtain rfl := (Prod.mk.inj (Except.ok.inj hr)).1
  have hmem : MapsLine.anonymous 0x1000 0x2000 true false false false ∈ sampleListing.lines :=
    List.mem_cons_self ..
  exact absurd ((flagOfLine_region hmem).mp hflag) (by decide)

end VmUtils
