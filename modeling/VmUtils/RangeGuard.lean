import VmUtils.GuardReplay
import VmUtils.QueryRangeProperties

/-! # The entries of a range guard

    On a range whose pages are all mapped, neighbouring lines of the selection
    meet (`selected_contiguous`).  The free regions that the gap filler inserts
    between them are then saved as entries without a page, and what is left is
    one entry for each line.  The entry of a line that ends inside the range also
    meets the first page of the next line: a page has at most two claimants, the
    line it is on and the line that ends where it begins. -/

namespace VmUtils

open Overlay Pages Intervals

variable {ps : PageSize} {L : Listing} {s : PageMap} {first last : BitVec 64}

/-- The pages that meet the range `[first, last)`. -/
def rangePages (ps : PageSize) (first last : BitVec 64) : Set Nat :=
  pagesMeeting ps.bytes first.toNat last.toNat

/-- Every page that meets the range is mapped. -/
def RangeMapped (ps : PageSize) (s : PageMap) (first last : BitVec 64) : Prop :=
  ∀ q ∈ rangePages ps first last, (s q).isSome

/-- A page of a mapped range is on a line, and the line is selected. -/
theorem exists_line (hd : Describes ps L s) (hm : RangeMapped ps s first last) {x : BitVec 64}
    (hfirst : first ≤ x) (hlast : x < last) : ∃ l ∈ L.lines, l.Contains x := by
  have hq : x.toNat / ps.bytes ∈ rangePages ps first last := ⟨x.toNat, hfirst, hlast, rfl⟩
  obtain ⟨l, hl, hp⟩ := hd.listed _ (hm _ hq)
  exact ⟨l, hl, (hasPage_div_iff (hd.aligned.begin_dvd l hl) (hd.aligned.end_dvd l hl) _).mp hp⟩

/-- **On a mapped range neighbours of the selection meet.** -/
theorem selected_contiguous (hd : Describes ps L s) (hm : RangeMapped ps s first last)
    {l l' : MapsLine} (hpair : [l, l'] <:+: selected first last L.lines) :
    l.endAddr = l'.beginAddr := by
  have hasc := selected_ascending L first last
  have hl := mem_selected.mp (hpair.subset (List.mem_cons_self ..))
  have hl' := mem_selected.mp (hpair.subset (List.mem_cons_of_mem _ (List.mem_cons_self ..)))
  have hle : l.endAddr ≤ l'.beginAddr :=
    (List.pairwise_cons.mp (hasc.sorted.sublist hpair.sublist)).1 l' (List.mem_cons_self ..)
  by_contra hne
  -- the byte behind `l` would be in the range and not mapped
  have hlt : l.endAddr < l'.beginAddr := by bv_omega
  have hlast : l.endAddr < last := by
    have := hl'.2.1
    bv_omega
  obtain ⟨m, hmem, hc⟩ := exists_line hd hm hl.2.2 hlast
  refine end_unmapped hl'.1 hlt ?_ hl.2.2 hlast m hmem hc
  intro n hn ht
  have hin : n ∈ selected first last L.lines := mem_selected.mpr ⟨hn, ht⟩
  exact le_or_le_of_neighbours hpair (hasc.hi_lt.imp Nat.le_of_lt) n hin

/-! ## Entries -/

/-- The entry saved for a line. -/
def lineEntry (first last : BitVec 64) (l : MapsLine) : OldProtStorage :=
  savedEntry first last l.region

theorem stdMax_toNat (x y : BitVec 64) : (stdMax x y).toNat = max x.toNat y.toNat := by
  rw [stdMax]
  by_cases h : x < y
  · rw [if_pos h, Nat.max_eq_right (Nat.le_of_lt h)]
  · rw [if_neg h, Nat.max_eq_left (Nat.le_of_not_lt h)]

theorem stdMin_toNat (x y : BitVec 64) : (stdMin x y).toNat = min x.toNat y.toNat := by
  rw [stdMin]
  by_cases h : y < x
  · rw [if_pos h, Nat.min_eq_right (Nat.le_of_lt h)]
  · rw [if_neg h, Nat.min_eq_left (Nat.le_of_not_lt h)]

theorem savedEntry_begin (r : BasicRegion 64) :
    (savedEntry first last r).beginAddr.toNat = max r.begin.toNat first.toNat := by
  rw [savedEntry, addressCastUnchecked_self]
  exact stdMax_toNat ..

theorem savedEntry_end (r : BasicRegion 64) :
    (savedEntry first last r).endAddr.toNat = min r.end.toNat last.toNat := by
  rw [savedEntry, addressCastUnchecked_self]
  exact stdMin_toNat ..

/-- Where the end of a line is one byte behind its last page. -/
theorem region_end_toNat (ha : L.PageAligned ps) {l : MapsLine} (hl : l ∈ L.lines) :
    l.region.end.toNat = l.endAddr.toNat + 1 := by
  have htop := ps.succ_lt (ha.end_dvd l hl)
  rw [region_end]
  bv_omega

/-- The entry of a line meets pages of the range only. -/
theorem lineEntry_cells_subset (l : MapsLine) :
    (entryWrite ps (lineEntry first last l)).cells ⊆ rangePages ps first last := by
  rintro q ⟨x, hlo, hhi, hq⟩
  rw [lineEntry, savedEntry_begin] at hlo
  rw [lineEntry, savedEntry_end] at hhi
  exact ⟨x, Nat.le_trans (Nat.le_max_right ..) hlo, Nat.lt_of_lt_of_le hhi (Nat.min_le_right ..), hq⟩

/-- The value an entry writes is the protection of its line. -/
theorem lineEntry_value {l : MapsLine} (hl : l ∈ L.lines) :
    (entryWrite ps (lineEntry first last l)).value = some l.protection.native := by
  show some (transformProt l.perms).native = _
  rw [transformProt_eq (L.kernelPerms l hl)]

/-- The entry of a selected line can be replayed. -/
theorem lineEntry_replayable (hd : Describes ps L s) (hm : RangeMapped ps s first last)
    (hle : first ≤ last) {l : MapsLine} (hl : l ∈ selected first last L.lines) :
    Replayable ps s (lineEntry first last l) := by
  obtain ⟨hmem, hb, he⟩ := mem_selected.mp hl
  refine ⟨Or.inl ?_, ?_, fun q hq => hm q (lineEntry_cells_subset l hq)⟩
  · show (lineEntry first last l).beginAddr.toNat ≤ (lineEntry first last l).endAddr.toNat
    rw [lineEntry, savedEntry_begin, savedEntry_end, region_end_toNat hd.aligned hmem]
    have hlt := L.begin_lt_end l hmem
    have hb' : l.beginAddr.toNat ≤ last.toNat := hb
    have he' : first.toNat ≤ l.endAddr.toNat := he
    have hle' : first.toNat ≤ last.toNat := hle
    have hlt' : l.beginAddr.toNat < l.endAddr.toNat := hlt
    show max l.beginAddr.toNat _ ≤ _
    omega
  · show (transformProt l.perms).native < 8
    rw [transformProt_eq (L.kernelPerms l hmem)]
    exact protection_isRwx l

/-- The bounds saved for the free region between lines that meet. -/
theorem gapEntry_bounds (ha : L.PageAligned ps) {l l' : MapsLine} (hl : l ∈ L.lines)
    (hmeet : l.endAddr = l'.beginAddr) (ht : l.Touches first last) :
    (savedEntry first last (BasicRegion.free l.region.end l'.region.begin)).beginAddr.toNat
        = l.endAddr.toNat + 1
      ∧ (savedEntry first last (BasicRegion.free l.region.end l'.region.begin)).endAddr.toNat
        = min (l.endAddr.toNat + 1) last.toNat := by
  have htop := ps.succ_lt (ha.end_dvd l hl)
  have hfirst : first.toNat ≤ l.endAddr.toNat := ht.2
  rw [savedEntry_begin, savedEntry_end, begin_free, end_free, region_end_toNat ha hl, region_begin,
    ← hmeet]
  constructor
  · omega
  · congr 1
    bv_omega

/-- The free region between lines that meet is saved as an entry without a
    page, which can be replayed. -/
theorem gapEntry_idle (ha : L.PageAligned ps) {l l' : MapsLine} (hl : l ∈ L.lines)
    (hmeet : l.endAddr = l'.beginAddr) (ht : l.Touches first last) (ht' : l'.Touches first last) :
    Replayable ps s (savedEntry first last (BasicRegion.free l.region.end l'.region.begin))
      ∧ (entryWrite ps (savedEntry first last
          (BasicRegion.free l.region.end l'.region.begin))).cells = ∅ := by
  obtain ⟨hb, he⟩ := gapEntry_bounds ha hl hmeet ht
  have hempty : (entryWrite ps (savedEntry first last
      (BasicRegion.free l.region.end l'.region.begin))).cells = ∅ := by
    refine pagesMeeting_empty ?_
    rw [hb, he]
    exact Nat.min_le_left ..
  refine ⟨⟨?_, ?_, ?_⟩, hempty⟩
  · by_cases h : l.endAddr.toNat < last.toNat
    · refine Or.inl ?_
      show BitVec.toNat _ ≤ BitVec.toNat _
      rw [hb, he, Nat.min_eq_left h]
    · -- the line ends where the range does
      have hlast : l'.beginAddr.toNat ≤ last.toNat := ht'.1
      rw [← hmeet] at hlast
      have heq : last.toNat = l.endAddr.toNat := by omega
      refine Or.inr ⟨?_, ?_⟩
      · rw [hb, he, heq, Nat.min_eq_right (Nat.le_succ _)]
      · rw [he, heq, Nat.min_eq_right (Nat.le_succ _)]
        exact ha.end_dvd l hl
  · show (0 : NativeProtection) < 8
    decide
  · intro q hq
    rw [hempty] at hq
    exact nomatch hq

/-! ## The guard -/

/-- The vector `_old` of a guard on `[first, last)`. -/
def rangeEntries (L : Listing) (first last : BitVec 64) : List OldProtStorage :=
  (withGaps ((selected first last L.lines).map MapsLine.region)).map (savedEntry first last)

/-- Every free region in the result is idle. -/
theorem gaps_idle (hd : Describes ps L s) (hm : RangeMapped ps s first last) :
    ((selected first last L.lines).map MapsLine.region).IsChain (fun r r' =>
      Replayable ps s (savedEntry first last (BasicRegion.free r.end r'.begin))
        ∧ (entryWrite ps (savedEntry first last (BasicRegion.free r.end r'.begin))).cells = ∅) := by
  refine (List.isChain_map _).mpr (isChain_iff_forall_pair.mpr ?_)
  intro l l' hpair
  have hl := mem_selected.mp (hpair.subset (List.mem_cons_self ..))
  have hl' := mem_selected.mp (hpair.subset (List.mem_cons_of_mem _ (List.mem_cons_self ..)))
  exact gapEntry_idle hd.aligned hl.1 (selected_contiguous hd hm hpair) hl.2 hl'.2

/-- Every entry of the guard can be replayed. -/
theorem rangeEntries_replayable (hd : Describes ps L s) (hm : RangeMapped ps s first last)
    (hle : first ≤ last) : ∀ e ∈ rangeEntries L first last, Replayable ps s e := by
  intro e he
  obtain ⟨r, hr, rfl⟩ := List.mem_map.mp he
  rcases mem_withGaps.mp hr with hr | ⟨p, p', hpair, -, rfl⟩
  · obtain ⟨l, hl, rfl⟩ := List.mem_map.mp hr
    exact lineEntry_replayable hd hm hle hl
  · exact (isChain_iff_forall_pair.mp (gaps_idle hd hm) p p' hpair).1

/-- Inserted regions without pages do not touch a page. -/
theorem touching_withGaps (f : BasicRegion 64 → Write Nat (Option NativeProtection)) (q : Nat)
    (rs : List (BasicRegion 64))
    (h : rs.IsChain (fun r r' => q ∉ (f (BasicRegion.free r.end r'.begin)).cells)) :
    touching q ((withGaps rs).map f) = touching q (rs.map f) := by
  induction rs with
  | nil => rfl
  | cons x rs ih =>
      cases rs with
      | nil => rfl
      | cons y rs =>
          obtain ⟨hxy, hrs⟩ := List.isChain_cons_cons.mp h
          have hcons : ∀ ws ws' : List (Write Nat (Option NativeProtection)),
              touching q ws = touching q ws' → touching q (f x :: ws) = touching q (f x :: ws') := by
            intro ws ws' hws
            by_cases hx : q ∈ (f x).cells
            · rw [touching_cons_of_mem hx, touching_cons_of_mem hx, hws]
            · rw [touching_cons_of_not_mem hx, touching_cons_of_not_mem hx, hws]
          rw [withGaps]
          by_cases hg : y.begin ≠ x.end
          · rw [if_pos hg, List.map_cons, List.map_cons, List.map_cons]
            refine hcons _ _ ?_
            rw [touching_cons_of_not_mem hxy]
            exact ih hrs
          · rw [if_neg hg, List.map_cons, List.map_cons]
            exact hcons _ _ (ih hrs)

/-- The entries of the guard that touch a page are those of lines. -/
theorem touching_rangeEntries (hd : Describes ps L s) (hm : RangeMapped ps s first last) (q : Nat) :
    touching q ((rangeEntries L first last).map (entryWrite ps))
      = touching q ((selected first last L.lines).map
          (fun l => entryWrite ps (lineEntry first last l))) := by
  rw [rangeEntries, List.map_map,
    touching_withGaps (entryWrite ps ∘ savedEntry first last) q]
  · rw [List.map_map]
    rfl
  · refine (gaps_idle hd hm).imp ?_
    rintro r r' ⟨-, hempty⟩ hq
    exact Set.eq_empty_iff_forall_notMem.mp hempty q hq

/-! ## Claimants of a page -/

/-- The selected lines whose entry touches the page `q`, in order. -/
noncomputable def claimants (ps : PageSize) (L : Listing) (first last : BitVec 64) (q : Nat) :
    List MapsLine :=
  open Classical in
  (selected first last L.lines).filter
    (fun l => decide (q ∈ (entryWrite ps (lineEntry first last l)).cells))

theorem touching_eq_claimants (hd : Describes ps L s) (hm : RangeMapped ps s first last)
    (q : Nat) :
    touching q ((rangeEntries L first last).map (entryWrite ps))
      = (claimants ps L first last q).map (fun l => entryWrite ps (lineEntry first last l)) := by
  rw [touching_rangeEntries hd hm, touching, List.filter_map]
  rfl

/-- A selected line claims the pages of the range it is on, and the page at its
    end if that end lies in the range. -/
theorem mem_lineEntry_cells (ha : L.PageAligned ps) {l : MapsLine}
    (hl : l ∈ selected first last L.lines) (q : Nat) :
    q ∈ (entryWrite ps (lineEntry first last l)).cells
      ↔ (q ∈ rangePages ps first last ∧ l.HasPage ps q)
        ∨ (l.endAddr.toNat = q * ps.bytes ∧ l.endAddr < last) := by
  obtain ⟨hmem, hb, he⟩ := mem_selected.mp hl
  have hpos := ps.pos_bytes
  have hlt : l.beginAddr.toNat < l.endAddr.toNat := L.begin_lt_end l hmem
  have hb' : l.beginAddr.toNat ≤ last.toNat := hb
  have he' : first.toNat ≤ l.endAddr.toNat := he
  have hlow : ∀ x : Nat, x / ps.bytes ≤ q ↔ x < q * ps.bytes + ps.bytes := by
    intro x
    rw [← Nat.lt_succ_iff, Nat.div_lt_iff_lt_mul hpos, Nat.succ_mul]
  -- the start of the line is a page boundary
  have hstart : l.beginAddr.toNat / ps.bytes ≤ q → l.beginAddr.toNat ≤ q * ps.bytes := by
    intro h
    obtain ⟨i, hi⟩ := ha.begin_dvd l hmem
    rw [hi, Nat.mul_div_cancel_left i hpos] at h
    rw [hi, Nat.mul_comm]
    exact Nat.mul_le_mul_right _ h
  have hcells : q ∈ (entryWrite ps (lineEntry first last l)).cells
      ↔ max l.beginAddr.toNat first.toNat < min (l.endAddr.toNat + 1) last.toNat
        ∧ max l.beginAddr.toNat first.toNat / ps.bytes ≤ q
        ∧ q * ps.bytes < min (l.endAddr.toNat + 1) last.toNat := by
    show q ∈ pagesMeeting _ _ _ ↔ _
    rw [lineEntry, savedEntry_begin, savedEntry_end, region_end_toNat ha hmem, region_begin]
    exact mem_pagesMeeting hpos
  have hlast : l.endAddr < last ↔ l.endAddr.toNat < last.toNat := Iff.rfl
  rw [hcells, rangePages, mem_pagesMeeting hpos, hlow, hlow, MapsLine.HasPage, hlast]
  rw [hlow] at hstart
  constructor
  · rintro ⟨h1, h2, h3⟩
    have hbegin := hstart (by omega)
    -- only the byte that `end()` adds can lie on a page that is not the line's
    by_cases h : q * ps.bytes < l.endAddr.toNat
    · exact Or.inl ⟨⟨by omega, by omega, by omega⟩, hbegin, h⟩
    · exact Or.inr ⟨by omega, by omega⟩
  · rintro (⟨⟨h1, h2, h3⟩, h4, h5⟩ | ⟨h1, h2⟩)
    · exact ⟨by omega, by omega, by omega⟩
    · exact ⟨by omega, by omega, by omega⟩

theorem mem_claimants (ha : L.PageAligned ps) {l : MapsLine} {q : Nat} :
    l ∈ claimants ps L first last q ↔ l ∈ selected first last L.lines
      ∧ ((q ∈ rangePages ps first last ∧ l.HasPage ps q)
        ∨ (l.endAddr.toNat = q * ps.bytes ∧ l.endAddr < last)) := by
  classical
  rw [claimants, List.mem_filter, decide_eq_true_eq]
  constructor
  · rintro ⟨hl, hq⟩
    exact ⟨hl, (mem_lineEntry_cells ha hl q).mp hq⟩
  · rintro ⟨hl, hq⟩
    exact ⟨hl, (mem_lineEntry_cells ha hl q).mpr hq⟩

theorem claimants_ascending (ps : PageSize) (L : Listing) (first last : BitVec 64) (q : Nat) :
    Ascending lineLo lineHi (claimants ps L first last q) :=
  (selected_ascending L first last).sublist (List.filter_sublist ..)

/-- The line of a page of the range is selected and claims the page. -/
theorem line_mem_claimants (ha : L.PageAligned ps) {l : MapsLine} (hl : l ∈ L.lines) {q : Nat}
    (hq : q ∈ rangePages ps first last) (hp : l.HasPage ps q) :
    l ∈ claimants ps L first last q := by
  refine (mem_claimants ha).mpr ⟨mem_selected.mpr ⟨hl, ?_⟩, Or.inl ⟨hq, hp⟩⟩
  obtain ⟨x, hfirst, hlast, rfl⟩ := hq
  obtain ⟨hb, he⟩ := (hasPage_div_iff (ha.begin_dvd l hl) (ha.end_dvd l hl) x).mp hp
  refine ⟨?_, ?_⟩
  · show l.beginAddr.toNat ≤ last.toNat
    omega
  · show first.toNat ≤ l.endAddr.toNat
    omega

/-- **The last claimant of a page is the line it is on.** -/
theorem claimants_getLast (ha : L.PageAligned ps) {l : MapsLine} (hl : l ∈ L.lines) {q : Nat}
    (hq : q ∈ rangePages ps first last) (hp : l.HasPage ps q) :
    (claimants ps L first last q).getLast? = some l := by
  have hmem := line_mem_claimants ha hl hq hp
  obtain ⟨z, hz⟩ : ∃ z, (claimants ps L first last q).getLast? = some z :=
    ⟨_, List.getLast?_eq_some_getLast (List.ne_nil_of_mem hmem)⟩
  -- a line that ends where the page begins ends in front of `l`
  have hhi : l.endAddr.toNat ≤ z.endAddr.toNat :=
    ((claimants_ascending ps L first last q).le_last hz l hmem).2
  obtain ⟨hzsel, hzq⟩ := (mem_claimants ha).mp (List.mem_of_getLast? hz)
  rcases hzq with ⟨-, hzp⟩ | ⟨hze, -⟩
  · rw [hz, L.ascending.eq_of_contains hl (mem_selected.mp hzsel).1 hp hzp]
  · exact absurd hp.2 (by omega)

/-- **The first claimant of a page** is the line it is on, or the line that ends
    where the page begins if that end lies in the range. -/
theorem claimants_head (ha : L.PageAligned ps) {l : MapsLine} (hl : l ∈ L.lines) {q : Nat}
    (hq : q ∈ rangePages ps first last) (hp : l.HasPage ps q) :
    ∃ h ∈ L.lines, (claimants ps L first last q).head? = some h
      ∧ (h = l ∨ (h.endAddr.toNat = q * ps.bytes ∧ first ≤ h.endAddr ∧ h.endAddr < last))
      ∧ ∀ m ∈ L.lines, m.endAddr.toNat = q * ps.bytes → first ≤ m.endAddr →
          m.endAddr < last → m = h := by
  have hmem := line_mem_claimants ha hl hq hp
  rcases hcl : claimants ps L first last q with _ | ⟨h, t⟩
  · rw [hcl] at hmem
    exact nomatch hmem
  · have hh : h ∈ claimants ps L first last q := hcl ▸ List.mem_cons_self ..
    obtain ⟨hsel, hhq⟩ := (mem_claimants ha).mp hh
    have hhl := (mem_selected.mp hsel).1
    refine ⟨h, hhl, rfl, ?_, ?_⟩
    · rcases hhq with ⟨-, hhp⟩ | ⟨hhe, hlast⟩
      · exact Or.inl (L.ascending.eq_of_contains hhl hl hhp hp)
      · exact Or.inr ⟨hhe, (mem_selected.mp hsel).2.2, hlast⟩
    · intro m hm hme hfirst hlast
      have hmlt : m.beginAddr.toNat < m.endAddr.toNat := L.begin_lt_end m hm
      have hhlt : h.beginAddr.toNat < h.endAddr.toNat := L.begin_lt_end h hhl
      have hmsel : m ∈ selected first last L.lines := by
        refine mem_selected.mpr ⟨hm, ?_, hfirst⟩
        show m.beginAddr.toNat ≤ last.toNat
        have hlast' : m.endAddr.toNat < last.toNat := hlast
        omega
      have hmcl : m ∈ claimants ps L first last q :=
        (mem_claimants ha).mpr ⟨hmsel, Or.inr ⟨hme, hlast⟩⟩
      rw [hcl] at hmcl
      rcases List.mem_cons.mp hmcl with heq | hmt
      · exact heq
      · -- `m` behind the head would start at or behind the page
        have hasc := claimants_ascending ps L first last q
        rw [hcl] at hasc
        have hle : h.endAddr.toNat ≤ m.beginAddr.toNat := hasc.head_le m hmt
        rcases hhq with ⟨-, hhp⟩ | ⟨hhe, -⟩
        · exact absurd hhp.2 (by omega)
        · omega

/-- A page that does not meet the range has no claimant. -/
theorem claimants_outside {q : Nat} (hq : q ∉ rangePages ps first last) :
    claimants ps L first last q = [] := by
  classical
  refine List.filter_eq_nil_iff.mpr ?_
  intro l _ hcell
  exact hq (lineEntry_cells_subset l (of_decide_eq_true hcell))

/-! ## What the replays do -/

/-- **Replayed from the front** the entries put back what the range held. -/
theorem replay_rangeEntries (hd : Describes ps L s) (hm : RangeMapped ps s first last)
    (t : PageMap) :
    replay ((rangeEntries L first last).map (entryWrite ps)) t
      = put (rangePages ps first last) s t := by
  funext q
  rw [replay_apply, touching_eq_claimants hd hm, List.getLast?_map]
  by_cases hq : q ∈ rangePages ps first last
  · obtain ⟨l, hl, hp⟩ := hd.listed q (hm q hq)
    rw [put_mem hq, claimants_getLast hd.aligned hl hq hp, hd.mapped l hl q hp]
    exact lineEntry_value hl
  · rw [put_not_mem hq, claimants_outside hq]
    rfl

/-- Lines that meet inside the range have the same protection. -/
def SeamsMatch (L : Listing) (first last : BitVec 64) : Prop :=
  ∀ l ∈ L.lines, ∀ l' ∈ L.lines, l.endAddr = l'.beginAddr → first ≤ l.endAddr →
    l.endAddr < last → l.protection = l'.protection

/-- **Replayed from the back** they do so exactly if the seams match: the page
    behind a seam is left to the line in front of it. -/
theorem replay_reverse_rangeEntries_iff (hd : Describes ps L s)
    (hm : RangeMapped ps s first last) {t : PageMap}
    (ht : ∀ q, q ∉ rangePages ps first last → t q = s q) :
    replay ((rangeEntries L first last).map (entryWrite ps)).reverse t = s
      ↔ SeamsMatch L first last := by
  have hvalue : ∀ q, replay ((rangeEntries L first last).map (entryWrite ps)).reverse t q
      = (((claimants ps L first last q).head?.map
          (fun l => entryWrite ps (lineEntry first last l))).map Write.value).getD (t q) := by
    intro q
    rw [replay_reverse_apply, touching_eq_claimants hd hm, List.head?_map]
  constructor
  · intro heq l hl l' hl' hmeet hfirst hlast
    -- the page behind the seam
    obtain ⟨k, hk⟩ := hd.aligned.end_dvd l hl
    rw [Nat.mul_comm] at hk
    have hq : k ∈ rangePages ps first last := by
      refine ⟨l.endAddr.toNat, hfirst, hlast, ?_⟩
      rw [hk, Nat.mul_div_cancel k ps.pos_bytes]
    have hp : l'.HasPage ps k := by
      rw [MapsLine.HasPage, ← hk, ← hmeet]
      refine ⟨Nat.le_refl _, ?_⟩
      rw [hmeet]
      exact L.begin_lt_end l' hl'
    obtain ⟨h, hh, hhead, -, hfirstclaim⟩ := claimants_head hd.aligned hl' hq hp
    obtain rfl := hfirstclaim l hl hk hfirst hlast
    have hat := congrFun heq k
    rw [hvalue, hhead, hd.mapped l' hl' k hp] at hat
    have hprot : some l.protection.native = some l'.protection.native :=
      (lineEntry_value hl).symm.trans hat
    exact congrArg Protection.mk (Option.some.inj hprot)
  · intro hseams
    funext q
    rw [hvalue]
    by_cases hq : q ∈ rangePages ps first last
    · -- the first claimant is the line of the page or meets it at a seam
      obtain ⟨l, hl, hp⟩ := hd.listed q (hm q hq)
      obtain ⟨h, hh, hhead, hwhich, -⟩ := claimants_head hd.aligned hl hq hp
      have hprot : h.protection = l.protection := by
        rcases hwhich with rfl | ⟨hend, hfirst, hlast⟩
        · rfl
        · refine hseams h hh l hl ?_ hfirst hlast
          have hhlt : h.beginAddr.toNat < h.endAddr.toNat := L.begin_lt_end h hh
          obtain ⟨hlo, hhi⟩ := hp
          rcases L.ascending.trichotomy h hh l hl with rfl | hle | hle
          · omega
          · have hle' : h.endAddr.toNat ≤ l.beginAddr.toNat := hle
            exact BitVec.eq_of_toNat_eq (by omega)
          · have hle' : l.endAddr.toNat ≤ h.beginAddr.toNat := hle
            omega
      rw [hhead, hd.mapped l hl q hp, ← hprot]
      exact lineEntry_value hh
    · rw [claimants_outside hq]
      exact ht q hq

end VmUtils
