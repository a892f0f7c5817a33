import VmUtils.QueryRangeProperties

/-! # Every mapping of the range is reported

    What the protection guard relies on: the lines that share a byte with
    `[first, last)` are among the used regions of the result, in file order and
    with their bounds and characters, and the gap filler leaves the vector it was
    given as the used part of its result. -/

namespace VmUtils

open TextStream Intervals

/-- The line has a byte in `[first, last)`. -/
def MapsLine.SharesByte (first last : BitVec 64) (l : MapsLine) : Prop :=
  ∃ x, first ≤ x ∧ x < last ∧ l.Contains x

theorem sharesByte_iff {first last : BitVec 64} {l : MapsLine} :
    l.SharesByte first last ↔ first < last ∧ first < l.endAddr ∧ l.beginAddr < last
      ∧ l.beginAddr < l.endAddr :=
  common_address_iff

instance (first last : BitVec 64) (l : MapsLine) : Decidable (l.SharesByte first last) :=
  decidable_of_iff _ sharesByte_iff.symm

/-- The region reports the line. -/
structure Reports (l : MapsLine) (r : BasicRegion 64) : Prop where
  used : r.used = true
  begin_eq : r.begin = l.beginAddr
  size_eq : r.size.toNat = l.endAddr.toNat - l.beginAddr.toNat
  readable : r.protection.readable = (l.perms 0 == 'r')
  writable : r.protection.writable = (l.perms 1 == 'w')
  executable : r.protection.executable = (l.perms 2 == 'x')

theorem reports_region {L : Listing} {l : MapsLine} (hl : l ∈ L.lines) : Reports l l.region := by
  obtain ⟨hu, hb, hs, hr, hw, hx⟩ := region_describes (L.begin_lt_end l hl) (L.kernelPerms l hl)
  exact ⟨hu, hb, hs, hr, hw, hx⟩

theorem touches_of_sharesByte {first last : BitVec 64} {l : MapsLine}
    (h : l.SharesByte first last) : l.Touches first last := by
  obtain ⟨-, hend, hbegin, -⟩ := sharesByte_iff.mp h
  exact ⟨Nat.le_of_lt hbegin, Nat.le_of_lt hend⟩

/-- The lines that share a byte with the range are collected in file order. -/
theorem shared_sublist_collected (L : Listing) (first last : BitVec 64) :
    (L.lines.filter (fun l => l.SharesByte first last)).Sublist
      (collected first last L.lines) := by
  refine List.Sublist.trans ?_ (List.sublist_append_left ..)
  rw [selected_eq_filter L.ascending]
  refine List.monotone_filter_right _ ?_
  intro l hl
  exact decide_eq_true (touches_of_sharesByte (of_decide_eq_true hl))

/-- Every line of a listing is reported by its region. -/
theorem forall₂_reports (L : Listing) {lines : List MapsLine} (h : lines ⊆ L.lines) :
    List.Forall₂ Reports lines (lines.map MapsLine.region) := by
  rw [List.forall₂_map_right_iff, List.forall₂_same]
  intro l hl
  exact reports_region (h hl)

/-- **Every line that shares a byte with the range is reported**, in file order,
    and the gap filler neither drops nor alters a region of the vector the loop
    collected. -/
theorem queryRangeEc_covers (os : Process) (u : Uninit) (handle : Int) (L : Listing)
    (first last : BitVec 64) (ec : ErrorCode)
    (hopen : os.openFile (mapsPath handle) = some L.text) :
    ∃ mapped regions,
      (forLines (queryRangeLoop 64 first last) (IStream.over none L.text) (u.locals, [])).map
          roundRegions = .ok mapped
        ∧ queryRangeEc 64 os u handle first last ec = .ok (regions, ec)
        ∧ regions = fillRegionGaps mapped
        ∧ regions.filter (fun r => r.used) = mapped
        ∧ ∃ reported, reported.Sublist (regions.filter (fun r => r.used))
          ∧ List.Forall₂ Reports (L.lines.filter (fun l => l.SharesByte first last)) reported := by
  by_cases hne : L.lines = []
  · -- no line at all
    have htext := L.text_of_nil hne
    obtain ⟨mapped, hloop, hfill, hmapped⟩ := queryRangeLoop_empty u first last
    have himpl : queryRangeImpl 64 (IStream.over none L.text) u first last = .ok mapped := by
      rw [queryRangeImpl_eq_map, htext, hloop]
      exact congrArg Except.ok hfill
    refine ⟨mapped, mapped, htext ▸ hloop, ?_, hfill.symm, ?_, [], List.nil_sublist _, ?_⟩
    · simp only [queryRangeEc, hopen, addressCast_self, bind, Except.bind, himpl]
      rfl
    · exact List.filter_eq_self.mpr (fun r hr => (hmapped r hr).1)
    · rw [hne]
      exact List.Forall₂.nil
  · have hused : ∀ r ∈ (collected first last L.lines).map MapsLine.region, r.used = true := by
      intro r hr
      obtain ⟨l, -, rfl⟩ := List.mem_map.mp hr
      rfl
    have hfilter := filter_used_withGaps hused
    refine ⟨_, _, queryRangeLoop_collected hne u first last, queryRangeEc_listing hopen hne ..,
      (fillRegionGaps_eq _).symm, hfilter, _, ?_, forall₂_reports L (List.filter_subset_self _)⟩
    rw [hfilter]
    exact (shared_sublist_collected L first last).map _

theorem queryRangeEc_covers_sample :
    ∃ mapped regions,
      (forLines (queryRangeLoop 64 0x1fff 0x8001) (IStream.over none sampleListing.text)
          (sampleUninit.locals, [])).map roundRegions = .ok mapped
        ∧ queryRangeEc 64 sampleProcess sampleUninit 1 (0x1fff : BitVec 64) 0x8001 {}
          = .ok (regions, {})
        ∧ regions = fillRegionGaps mapped
        ∧ regions.filter (fun r => r.used) = mapped
        ∧ ∃ reported, reported.Sublist (regions.filter (fun r => r.used))
          ∧ List.Forall₂ Reports (sampleListing.lines.filter (fun l => l.SharesByte 0x1fff 0x8001))
            reported :=
  queryRangeEc_covers sampleProcess sampleUninit 1 sampleListing 0x1fff 0x8001 {} rfl

end VmUtils
