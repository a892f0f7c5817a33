import VmUtils.GuardRestoration

/-! # A region as a range for `protect`

    The stored `_end` of a region is already one past its last byte, and `end()`
    adds one more.  Therefore `size()` and `end() - begin()` never agree, and
    `protect(r.begin(), r.end(), p)` asks for the page behind the region as well,
    which is a page of another mapping if one begins there. -/

namespace VmUtils

open Overlay Pages Intervals

variable {ps : PageSize} {os : Posix PageMap} {L : Listing} {s : PageMap} {l h : MapsLine}

/-- The size is one less than what lies between `begin()` and `end()`. -/
theorem size_ne (r : BasicRegion 64) : r.size ≠ r.end - r.begin := by
  rw [BasicRegion.size, BasicRegion.end, BasicRegion.begin]
  intro heq
  bv_omega

/-- The region is a half-open range of the mapping `l` for the operations of the
    library. -/
structure UsableRange (ps : PageSize) (os : Posix PageMap) (s : PageMap) (l : MapsLine)
    (r : BasicRegion 64) : Prop where
  size_eq : r.size = r.end - r.begin
  protects : ∀ prot q, ((os.protect r.begin r.end prot).run s).2 q ≠ s q → l.HasPage ps q

/-- The state behind `protect` is the state behind its system call. -/
theorem protect_run_snd (os : Posix PageMap) (first last : BitVec 64) (prot : Protection)
    (s : PageMap) :
    ((os.protect first last prot).run s).2
      = if first = last then s
        else (os.mprotect (first &&& -os.pageSize) (last - (first &&& -os.pageSize))
          prot.native s).2 := by
  rw [Posix.protect_run]
  by_cases hne : first = last
  · rw [if_pos hne, if_pos hne]
  · rw [if_neg hne, if_neg hne]
    rcases os.mprotect (first &&& -os.pageSize) (last - (first &&& -os.pageSize)) prot.native s
      with ⟨_ | errno, s'⟩
    · rfl
    · rfl

/-- A page that `protect` changes was mapped and meets the range. -/
theorem MprotectFrame.protect_changed (hf : MprotectFrame ps os)
    (hsize : os.pageSize = BitVec.twoPow 64 ps.shift) {first last : BitVec 64}
    (hle : first ≤ last) {prot : Protection} {q : Nat}
    (hq : ((os.protect first last prot).run s).2 q ≠ s q) :
    q ∈ pagesMeeting ps.bytes first.toNat last.toNat ∧ (s q).isSome := by
  rw [protect_run_snd] at hq
  by_cases hne : first = last
  · rw [if_pos hne] at hq
    exact absurd rfl hq
  · rw [if_neg hne] at hq
    constructor
    · by_contra hout
      rw [← requested_roundDown hsize hne (Or.inl hle)] at hout
      exact hq (hf.outside _ _ _ _ _ (roundDown_dvd hsize first) hout)
    · by_contra hnone
      rw [Option.not_isSome_iff_eq_none] at hnone
      exact hq ((hf.unmapped _ _ _ _ _ (roundDown_dvd hsize first) hnone).trans hnone.symm)

/-- **The pages between `begin()` and `end()`** of a line's region are its own and
    the one behind it. -/
theorem mem_pages_region (hb : ps.bytes ∣ l.beginAddr.toNat) (he : ps.bytes ∣ l.endAddr.toNat)
    (hlt : l.beginAddr < l.endAddr) {q : Nat} :
    q ∈ pagesMeeting ps.bytes l.region.begin.toNat l.region.end.toNat
      ↔ l.HasPage ps q ∨ q * ps.bytes = l.endAddr.toNat := by
  have htop := ps.succ_lt he
  have hlt' : l.beginAddr.toNat < l.endAddr.toNat := hlt
  have hend : l.region.end.toNat = l.endAddr.toNat + 1 := by
    rw [region_end]
    bv_omega
  rw [mem_pagesMeeting ps.pos_bytes, region_begin, hend, MapsLine.HasPage]
  obtain ⟨i, hi⟩ := hb
  have hdiv : l.beginAddr.toNat / ps.bytes ≤ q ↔ l.beginAddr.toNat ≤ q * ps.bytes := by
    rw [hi, Nat.mul_div_cancel_left i ps.pos_bytes, Nat.mul_comm ps.bytes i,
      Nat.mul_le_mul_right_iff ps.pos_bytes]
  rw [hdiv]
  omega

/-- A page lies on at most one line. -/
theorem hasPage_unique (L : Listing) {l m : MapsLine} (hl : l ∈ L.lines) (hm : m ∈ L.lines)
    {q : Nat} (hlq : l.HasPage ps q) (hmq : m.HasPage ps q) : l = m :=
  L.ascending.eq_of_contains hl hm hlq hmq

/-- A protection other than a given one. -/
theorem exists_other_rwx (prot : NativeProtection) :
    ∃ p : Protection, p.IsRwx ∧ p.native ≠ prot := by
  by_cases h : prot = 0
  · exact ⟨⟨1⟩, by decide, by rw [h]; decide⟩
  · exact ⟨⟨0⟩, by decide, fun heq => h heq.symm⟩

/-- If the byte behind a line is mapped, `protect` on the bounds of its region can
    change every page between them. -/
theorem MprotectSpec.protect_region_changes (hspec : MprotectSpec ps os)
    (hdesc : Describes ps L s) (hl : l ∈ L.lines) {m : MapsLine} (hm : m ∈ L.lines)
    (hc : m.Contains l.endAddr) {q : Nat} (hq : l.HasPage ps q ∨ q * ps.bytes = l.endAddr.toNat) :
    ∃ prot, ((os.protect l.region.begin l.region.end prot).run s).2 q ≠ s q := by
  have hal := hdesc.aligned
  have hlt := L.begin_lt_end l hl
  have hpages : ∀ p, p ∈ pagesMeeting ps.bytes l.region.begin.toNat l.region.end.toNat
      ↔ l.HasPage ps p ∨ p * ps.bytes = l.endAddr.toNat :=
    fun p => mem_pages_region (hal.begin_dvd l hl) (hal.end_dvd l hl) hlt
  have hmapped : ∀ p ∈ pagesMeeting ps.bytes l.region.begin.toNat l.region.end.toNat,
      (s p).isSome := by
    intro p hp
    rcases (hpages p).mp hp with hown | hend
    · rw [hdesc.mapped l hl p hown]
      rfl
    · have hmp : m.HasPage ps p := ⟨hend ▸ hc.1, hend ▸ hc.2⟩
      rw [hdesc.mapped m hm p hmp]
      rfl
  have hle : l.region.begin ≤ l.region.end := by
    have htop := ps.succ_lt (hal.end_dvd l hl)
    rw [region_begin, region_end]
    bv_omega
  obtain ⟨old, hold⟩ := Option.isSome_iff_exists.mp (hmapped q ((hpages q).mpr hq))
  obtain ⟨prot, hrwx, hne⟩ := exists_other_rwx old
  refine ⟨prot, ?_⟩
  rw [hspec.protect_ok (Or.inl hle) hrwx hmapped, hold]
  show setProt _ prot.native s q ≠ some old
  rw [setProt, put_mem ((hpages q).mpr hq)]
  exact fun heq => hne (Option.some.inj heq)

/-- If the mapping in front answers for the address, its own pages change. -/
theorem leaks_in_front (hspec : MprotectSpec ps os) (hdesc : Describes ps L s) (hl : l ∈ L.lines)
    (hh : h ∈ L.lines) (hc : l.Contains h.endAddr) :
    ∃ prot q, ((os.protect h.region.begin h.region.end prot).run s).2 q ≠ s q
      ∧ ¬ l.HasPage ps q := by
  have hown : h.HasPage ps (h.beginAddr.toNat / ps.bytes) := by
    rw [hasPage_div_iff (hdesc.aligned.begin_dvd h hh) (hdesc.aligned.end_dvd h hh)]
    exact ⟨Nat.le_refl _, L.begin_lt_end h hh⟩
  obtain ⟨prot, hchanged⟩ := hspec.protect_region_changes hdesc hh hl hc (Or.inl hown)
  refine ⟨prot, _, hchanged, ?_⟩
  intro hpage
  obtain rfl := hasPage_unique L hh hl hown hpage
  exact absurd hc.2 (Nat.lt_irrefl _)

/-- If another mapping begins where this one ends, its first page changes. -/
theorem leaks_behind (hspec : MprotectSpec ps os) (hdesc : Describes ps L s) (hl : l ∈ L.lines)
    {m : MapsLine} (hm : m ∈ L.lines) (hbegin : m.beginAddr = l.endAddr) :
    ∃ prot q, ((os.protect l.region.begin l.region.end prot).run s).2 q ≠ s q
      ∧ ¬ l.HasPage ps q := by
  have hc : m.Contains l.endAddr := by
    rw [← hbegin]
    exact ⟨Nat.le_refl _, L.begin_lt_end m hm⟩
  have hq : l.endAddr.toNat / ps.bytes * ps.bytes = l.endAddr.toNat :=
    Nat.div_mul_cancel (hdesc.aligned.end_dvd l hl)
  obtain ⟨prot, hchanged⟩ := hspec.protect_region_changes hdesc hl hm hc (Or.inr hq)
  refine ⟨prot, _, hchanged, ?_⟩
  rintro ⟨-, hlt⟩
  exact absurd hq (Nat.ne_of_lt hlt)

/-- What a mapped byte behind a line means: another line begins there. -/
theorem begins_at_end (hl : l ∈ L.lines) {m : MapsLine}
    (hm : m ∈ L.lines) {q : Nat} (hq : q * ps.bytes = l.endAddr.toNat) (hmq : m.HasPage ps q) :
    m.beginAddr = l.endAddr := by
  obtain ⟨h1, h2⟩ := hmq
  have hlt : l.beginAddr.toNat < l.endAddr.toNat := L.begin_lt_end l hl
  rcases L.ascending.trichotomy l hl m hm with rfl | hle | hle
  · omega
  · have hle' : l.endAddr.toNat ≤ m.beginAddr.toNat := hle
    exact BitVec.eq_of_toNat_eq (by omega)
  · have hle' : m.endAddr.toNat ≤ l.beginAddr.toNat := hle
    omega

/-- **The range of a queried region is never usable**: its size is not the
    distance of its bounds.  And `protect` on its bounds keeps to the mapping of
    the address exactly if no mapping ends at the address and none begins where
    the mapping of the address ends. -/
theorem queriedRegion_not_usable (ps : PageSize) (os : Posix PageMap) (s : PageMap)
    (proc : Process) (u : Uninit) (L : Listing) (l : MapsLine) (a : BitVec 64)
    (hopen : proc.openFile (mapsPath proc.getpid) = some L.text) (hdesc : Describes ps L s)
    (hspec : MprotectSpec ps os) (hframe : MprotectFrame ps os) (hl : l ∈ L.lines)
    (hc : l.Contains a) :
    ∃ r, queryLocal 64 proc u a = .ok r ∧ ¬ UsableRange ps os s l r
      ∧ ((∀ prot q, ((os.protect r.begin r.end prot).run s).2 q ≠ s q → l.HasPage ps q)
        ↔ ∀ m ∈ L.lines, m.endAddr ≠ a ∧ m.beginAddr ≠ l.endAddr) := by
  obtain ⟨h, hh, hscan, hwhich⟩ := scanRegion_mapped hl hc
  refine ⟨h.region, ?_, fun husable => size_ne _ husable.size_eq, ?_⟩
  · rw [queryLocal_listing hopen hl hc, hscan]
  · rcases hwhich with ⟨rfl, hends⟩ | rfl
    · -- the mapping of the address answers
      constructor
      · intro hkeeps m hm
        refine ⟨hends m hm, ?_⟩
        intro hbegin
        obtain ⟨prot, q, hchanged, hnot⟩ := leaks_behind hspec hdesc hl hm hbegin
        exact hnot (hkeeps prot q hchanged)
      · intro hcond prot q hchanged
        have hal := hdesc.aligned
        have hle : h.region.begin ≤ h.region.end := by
          have htop := ps.succ_lt (hal.end_dvd h hl)
          have hlt := L.begin_lt_end h hl
          rw [region_begin, region_end]
          bv_omega
        obtain ⟨hpage, hsome⟩ := hframe.protect_changed hspec.pageSize_eq hle hchanged
        rw [mem_pages_region (hal.begin_dvd h hl) (hal.end_dvd h hl) (L.begin_lt_end h hl)] at hpage
        rcases hpage with hown | hend
        · exact hown
        · -- the page behind is mapped, so a mapping begins there
          obtain ⟨m, hm, hmq⟩ := hdesc.listed q hsome
          exact absurd (begins_at_end hl hm hend hmq) (hcond m hm).2
    · -- the mapping in front of the address answers
      constructor
      · intro hkeeps
        obtain ⟨prot, q, hchanged, hnot⟩ := leaks_in_front hspec hdesc hl hh hc
        exact absurd (hkeeps prot q hchanged) hnot
      · intro hcond
        exact absurd rfl (hcond h hh).1

/-- The first mapping of the sample. -/
def sampleLine : MapsLine := .anonymous 0x1000 0x2000 true false false false

theorem sampleLine_mem : sampleLine ∈ sampleListing.lines := List.mem_cons_self ..

theorem queriedRegion_not_usable_sample :
    ∃ r, queryLocal 64 sampleProcess sampleUninit (0x1800 : BitVec 64) = .ok r
      ∧ ¬ UsableRange samplePageSize (walkingPosix samplePageSize) sampleState sampleLine r
      ∧ ((∀ prot q, (((walkingPosix samplePageSize).protect r.begin r.end prot).run sampleState).2 q
            ≠ sampleState q → sampleLine.HasPage samplePageSize q)
        ↔ ∀ m ∈ sampleListing.lines, m.endAddr ≠ 0x1800 ∧ m.beginAddr ≠ sampleLine.endAddr) :=
  queriedRegion_not_usable samplePageSize (walkingPosix samplePageSize) sampleState sampleProcess
    sampleUninit sampleListing sampleLine 0x1800 rfl sampleState_described (walkingPosix_spec _)
    (walkingPosix_frame _) sampleLine_mem (by decide)

/-- Removing the access to the first mapping of the sample, on the bounds that the
    query returned, also removes it from the first page of the second one. -/
theorem sampleLine_range_leaks :
    queryLocal 64 sampleProcess sampleUninit (0x1800 : BitVec 64) = .ok sampleLine.region
      ∧ MprotectSpec samplePageSize (walkingPosix samplePageSize)
      ∧ MprotectFrame samplePageSize (walkingPosix samplePageSize)
      ∧ Describes samplePageSize sampleListing sampleState
      ∧ sampleLine.region.size ≠ sampleLine.region.end - sampleLine.region.begin
      ∧ sampleState 2 = some 3
      ∧ (((walkingPosix samplePageSize).protect sampleLine.region.begin sampleLine.region.end
          ⟨0⟩).run sampleState).2 2 = some 0
      ∧ ¬ UsableRange samplePageSize (walkingPosix samplePageSize) sampleState sampleLine
        sampleLine.region := by
  have hquery : queryLocal 64 sampleProcess sampleUninit (0x1800 : BitVec 64)
      = .ok sampleLine.region := by
    rw [queryLocal_listing rfl sampleLine_mem (by decide)]
    rfl
  refine ⟨hquery, walkingPosix_spec _, walkingPosix_frame _, sampleState_described, size_ne _, rfl,
    ?_, fun h => size_ne _ h.size_eq⟩
  rw [protect_run_snd]
  decide

end VmUtils
