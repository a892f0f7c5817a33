import VmUtils.GuardEntries
import VmUtils.WindowsQuery
import VmUtils.OsxQuery
import VmUtils.Lib.Runs

/-! # Guards on Windows and macOS

    There the range constructor saves what the loop of `query_range` collects.  A
    query answers with a run of pages around its address that have one protection
    (`AnswersRun`), and the next query is made one byte behind that run.  So the
    saved entries are runs of pages, each written back with the page behind it
    (`Collected.entries`), and the destructor repairs those pages on the way while
    `restore` does not. -/

namespace VmUtils

open Overlay Pages Runs RetryStack

variable {ps : PageSize} {s : PageMap} {first last : BitVec 64}

/-! ## What the queries answer -/

/-- The region is a run of whole pages around `x`, all with its protection. -/
structure AnswersRun (ps : PageSize) (s : PageMap) (x : BitVec 64) (r : BasicRegion 64) :
    Prop where
  begin_le : r.beginAddr ≤ x
  lt_end : x < r.endAddr
  begin_dvd : ps.bytes ∣ r.beginAddr.toNat
  end_dvd : ps.bytes ∣ r.endAddr.toNat
  uniform : ∀ q, r.beginAddr.toNat ≤ q * ps.bytes → q * ps.bytes < r.endAddr.toNat →
    s q = some r.protection.native

/-- The pages of a region. -/
def pageRun (ps : PageSize) (r : BasicRegion 64) : Run (Option NativeProtection) where
  lo := r.beginAddr.toNat / ps.bytes
  hi := r.endAddr.toNat / ps.bytes
  value := some r.protection.native

theorem AnswersRun.lo_mul {x : BitVec 64} {r : BasicRegion 64} (h : AnswersRun ps s x r) :
    (pageRun ps r).lo * ps.bytes = r.beginAddr.toNat :=
  Nat.div_mul_cancel h.begin_dvd

theorem AnswersRun.hi_mul {x : BitVec 64} {r : BasicRegion 64} (h : AnswersRun ps s x r) :
    (pageRun ps r).hi * ps.bytes = r.endAddr.toNat :=
  Nat.div_mul_cancel h.end_dvd

/-- The next query is made one byte behind the run, on the page behind it. -/
theorem AnswersRun.end_toNat {x : BitVec 64} {r : BasicRegion 64} (h : AnswersRun ps s x r) :
    r.end.toNat = r.endAddr.toNat + 1 ∧ r.end.toNat / ps.bytes = (pageRun ps r).hi := by
  have hend : r.end.toNat = r.endAddr.toNat + 1 := by
    have htop := ps.succ_lt h.end_dvd
    show (r.endAddr + 1#64).toNat = _
    rw [BitVec.toNat_add, BitVec.toNat_ofNat, Nat.add_mod_mod, Nat.mod_eq_of_lt htop]
  refine ⟨hend, ?_⟩
  rw [hend, ← h.hi_mul, Nat.mul_comm, Nat.mul_add_div ps.pos_bytes,
    Nat.div_eq_of_lt ps.one_lt, Nat.add_zero]

theorem AnswersRun.holdsIn {x : BitVec 64} {r : BasicRegion 64} (h : AnswersRun ps s x r) :
    (pageRun ps r).HoldsIn s := by
  intro q hlo hhi
  refine h.uniform q ?_ ?_
  · rw [← h.lo_mul]
    exact Nat.mul_le_mul_right _ hlo
  · rw [← h.hi_mul]
    exact (Nat.mul_lt_mul_right ps.pos_bytes).mpr hhi

/-- The run contains the page of the address. -/
theorem AnswersRun.page {x : BitVec 64} {r : BasicRegion 64} (h : AnswersRun ps s x r) :
    (pageRun ps r).lo ≤ x.toNat / ps.bytes ∧ x.toNat / ps.bytes < (pageRun ps r).hi := by
  have hle : r.beginAddr.toNat ≤ x.toNat := h.begin_le
  have hlt : x.toNat < r.endAddr.toNat := h.lt_end
  rw [← h.hi_mul] at hlt
  exact ⟨Nat.div_le_div_right hle, (Nat.div_lt_iff_lt_mul ps.pos_bytes).mpr hlt⟩

/-! ## What the loop collects -/

/-- The regions that the loop of `query_range` collects from the cursor `cur` on. -/
inductive Collected (ps : PageSize) (s : PageMap) (last : BitVec 64) :
    BitVec 64 → List (BasicRegion 64) → Prop
  | stop {cur : BitVec 64} (h : ¬ cur < last) : Collected ps s last cur []
  | go {cur : BitVec 64} {r : BasicRegion 64} {rs : List (BasicRegion 64)} (hlt : cur < last)
      (hr : AnswersRun ps s cur r) (hrest : Collected ps s last r.end rs) :
      Collected ps s last cur (r :: rs)

/-- **The loop ends** if its queries are answered, after at most one round for
    every byte of the range. -/
theorem usingQueryLoop_collected {query : BitVec 64 → Except Exn (BasicRegion 64)}
    (hq : ∀ x, first ≤ x → x < last → ∃ r, query x = .ok r ∧ AnswersRun ps s x r) (n : Nat)
    {cur : BitVec 64} (hcur : first ≤ cur) (hn : last.toNat - cur.toNat < n)
    (acc : List (BasicRegion 64)) :
    ∃ rs, usingQueryLoop query last n cur acc = some (.ok (acc ++ rs))
      ∧ Collected ps s last cur rs := by
  induction n generalizing cur acc with
  | zero => exact absurd hn (Nat.not_lt_zero _)
  | succ n ih =>
      rw [usingQueryLoop]
      by_cases hlt : cur < last
      · obtain ⟨r, hquery, hr⟩ := hq cur hcur hlt
        have hend := hr.end_toNat.1
        have hbehind : cur.toNat < r.endAddr.toNat := hr.lt_end
        have hlt' : cur.toNat < last.toNat := hlt
        have hcur' : first ≤ r.end := by
          have hcur' : first.toNat ≤ cur.toNat := hcur
          show first.toNat ≤ r.end.toNat
          omega
        obtain ⟨rs, hrun, hrest⟩ := ih hcur' (by omega) (acc ++ [r])
        refine ⟨r :: rs, ?_, Collected.go hlt hr hrest⟩
        rw [if_pos hlt, hquery]
        dsimp only
        rw [hrun, List.append_assoc]
        rfl
      · exact ⟨[], by rw [if_neg hlt, List.append_nil], Collected.stop hlt⟩

/-- Enough fuel is enough: two loops that end give the same result. -/
theorem usingQueryLoop_unique {query : BitVec 64 → Except Exn (BasicRegion 64)} {n n' : Nat}
    {cur : BitVec 64} {acc : List (BasicRegion 64)} {r r' : Except Exn (List (BasicRegion 64))}
    (h : usingQueryLoop query last n cur acc = some r)
    (h' : usingQueryLoop query last n' cur acc = some r') : r = r' := by
  induction n generalizing n' cur acc with
  | zero => cases h
  | succ n ih =>
      cases n' with
      | zero => cases h'
      | succ n' =>
          rw [usingQueryLoop] at h h'
          by_cases hlt : cur < last
          · rw [if_pos hlt] at h h'
            cases hquery : query cur with
            | error e =>
                rw [hquery] at h h'
                rw [← Option.some.inj h, ← Option.some.inj h']
            | ok r =>
                rw [hquery] at h h'
                exact ih h h'
          · rw [if_neg hlt] at h h'
            rw [← Option.some.inj h, ← Option.some.inj h']

/-- The collected regions are entered one behind the other. -/
theorem Collected.enteredAt {cur : BitVec 64} {rs : List (BasicRegion 64)}
    (h : Collected ps s last cur rs) :
    EnteredAt s (cur.toNat / ps.bytes) (rs.map (pageRun ps)) := by
  induction h with
  | stop => exact trivial
  | go hlt hr _ ih =>
      rw [hr.end_toNat.2] at ih
      exact ⟨hr.holdsIn, hr.page.1, hr.page.2, ih⟩

/-- The runs reach the last byte of the range. -/
theorem Collected.last_le {cur : BitVec 64} {rs : List (BasicRegion 64)}
    (h : Collected ps s last cur rs) (hne : rs ≠ []) :
    last.toNat ≤ reached (cur.toNat / ps.bytes) (rs.map (pageRun ps)) * ps.bytes + 1 := by
  induction h with
  | stop => exact absurd rfl hne
  | @go cur r rs hlt hr hrest ih =>
      cases rs with
      | nil =>
          cases hrest with
          | stop hstop =>
              show last.toNat ≤ (pageRun ps r).hi * ps.bytes + 1
              rw [hr.hi_mul, ← hr.end_toNat.1]
              exact Nat.le_of_not_lt hstop
      | cons r' rs =>
          have hreach := ih (List.cons_ne_nil _ _)
          rw [hr.end_toNat.2] at hreach
          exact hreach

/-- A run that begins in front of the last byte of the range and reaches over it
    holds the last two bytes, when the last one begins a page. -/
theorem Collected.last_two {cur : BitVec 64} {rs : List (BasicRegion 64)} {b : Nat}
    (h : Collected ps s last cur rs) (hb : b * ps.bytes + 1 = last.toNat)
    (hcur : cur.toNat < b * ps.bytes)
    (hreach : b < reached (cur.toNat / ps.bytes) (rs.map (pageRun ps))) : s (b - 1) = s b := by
  have hpos := ps.pos_bytes
  induction h with
  | @stop cur hstop =>
      have hlt : cur.toNat < last.toNat := by omega
      exact absurd hlt hstop
  | @go cur r rs hlt hr hrest ih =>
      have hend := hr.end_toNat
      by_cases hhi : (pageRun ps r).hi ≤ b
      · -- the run ends in front of the last byte, and so does the next cursor
        have hne : (pageRun ps r).hi ≠ b := by
          intro heq
          cases hrest with
          | stop hstop =>
              have hreach' : b < (pageRun ps r).hi := hreach
              omega
          | go hlt' =>
              have hlt'' : r.end.toNat < last.toNat := hlt'
              rw [hend.1, ← hr.hi_mul, heq] at hlt''
              omega
        have hle : (pageRun ps r).hi * ps.bytes + ps.bytes ≤ b * ps.bytes := by
          rw [← Nat.succ_mul]
          exact Nat.mul_le_mul_right _ (by omega)
        have hone := ps.one_lt
        refine ih ?_ ?_
        · rw [hend.1, ← hr.hi_mul]
          omega
        · rw [hend.2]
          exact hreach
      · have hlo : (pageRun ps r).lo ≤ b - 1 := by
          have hdiv : cur.toNat / ps.bytes < b := (Nat.div_lt_iff_lt_mul hpos).mpr hcur
          have := hr.page.1
          omega
        rw [hr.holdsIn (b - 1) hlo (by omega), hr.holdsIn b (by omega) (by omega)]

/-! ## The saved entries -/

/-- The pages that meet the range, from the first one to the last. -/
theorem rangePages_eq_Icc (hlt : first < last) :
    rangePages ps first last = Set.Icc (first.toNat / ps.bytes) ((last.toNat - 1) / ps.bytes) := by
  have hlt' : first.toNat < last.toNat := hlt
  ext q
  rw [rangePages, mem_pagesMeeting ps.pos_bytes, Set.mem_Icc, Nat.le_div_iff_mul_le ps.pos_bytes]
  constructor
  · rintro ⟨-, h1, h2⟩
    exact ⟨h1, by omega⟩
  · rintro ⟨h1, h2⟩
    exact ⟨hlt', h1, by omega⟩

/-- **The entry of a run** writes its part of the range and the page behind it. -/
theorem AnswersRun.savedEntry {x : BitVec 64} {r : BasicRegion 64} (h : AnswersRun ps s x r)
    (hfirst : first ≤ x) (hlast : x < last) :
    (savedEntry first last r).beginAddr < (savedEntry first last r).endAddr
      ∧ entryWrite ps (savedEntry first last r)
        = (pageRun ps r).write (first.toNat / ps.bytes) ((last.toNat - 1) / ps.bytes) := by
  have hpos := ps.pos_bytes
  have hbegin : (VmUtils.savedEntry first last r).beginAddr.toNat = _ := savedEntry_begin r
  have hend : (VmUtils.savedEntry first last r).endAddr.toNat = _ := savedEntry_end r
  rw [h.end_toNat.1] at hend
  have h1 : r.begin.toNat ≤ x.toNat := h.begin_le
  have h2 : x.toNat < r.endAddr.toNat := h.lt_end
  have h3 : first.toNat ≤ x.toNat := hfirst
  have h4 : x.toNat < last.toNat := hlast
  have hlt : (VmUtils.savedEntry first last r).beginAddr.toNat
      < (VmUtils.savedEntry first last r).endAddr.toNat := by
    rw [hbegin, hend]
    omega
  refine ⟨hlt, ?_⟩
  have hcells : (entryWrite ps (VmUtils.savedEntry first last r)).cells
      = ((pageRun ps r).write (first.toNat / ps.bytes) ((last.toNat - 1) / ps.bytes)).cells := by
    ext q
    show q ∈ pagesMeeting _ _ _ ↔ q ∈ Set.Icc _ _
    have hlo : max r.begin.toNat first.toNat / ps.bytes ≤ q
        ↔ max (pageRun ps r).lo (first.toNat / ps.bytes) ≤ q := by
      rw [Nat.div_le_iff_le_mul_add_pred hpos, max_le_iff, max_le_iff,
        ← Nat.div_le_iff_le_mul_add_pred hpos, ← Nat.div_le_iff_le_mul_add_pred hpos]
      rfl
    have hhi : q ≤ (pageRun ps r).hi ↔ q * ps.bytes ≤ r.endAddr.toNat := by
      rw [← h.hi_mul, Nat.mul_le_mul_right_iff hpos]
    rw [mem_pagesMeeting hpos, Set.mem_Icc, hbegin, hend, hlo, le_min_iff, hhi,
      Nat.le_div_iff_mul_le hpos]
    constructor
    · rintro ⟨-, h5, h6⟩
      exact ⟨h5, by omega, by omega⟩
    · rintro ⟨h5, h6, h7⟩
      exact ⟨by omega, h5, by omega⟩
  show Write.mk _ _ = Write.mk _ _
  rw [Write.mk.injEq]
  exact ⟨hcells, rfl⟩

/-- What was collected answers for cursors of the range. -/
theorem Collected.answers {cur : BitVec 64} {rs : List (BasicRegion 64)}
    (h : Collected ps s last cur rs) (hcur : first ≤ cur) :
    ∀ r ∈ rs, ∃ x, first ≤ x ∧ x < last ∧ AnswersRun ps s x r := by
  induction h with
  | stop =>
      intro r hr
      cases hr
  | @go cur r rs hlt hr hrest ih =>
      have hcur' : first ≤ r.end := by
        have hend := hr.end_toNat.1
        have h1 : first.toNat ≤ cur.toNat := hcur
        have h2 : cur.toNat < r.endAddr.toNat := hr.lt_end
        show first.toNat ≤ r.end.toNat
        omega
      intro r' hr'
      rcases List.mem_cons.mp hr' with rfl | hr'
      · exact ⟨cur, hcur, hlt, hr⟩
      · exact ih hcur' r' hr'

/-- The writes of a guard are those of the collected runs. -/
theorem Collected.entries {cur : BitVec 64} {rs : List (BasicRegion 64)}
    (h : Collected ps s last cur rs) (hcur : first ≤ cur) :
    (rs.map (savedEntry first last)).map (entryWrite ps)
      = (rs.map (pageRun ps)).map
        (Run.write (first.toNat / ps.bytes) ((last.toNat - 1) / ps.bytes)) := by
  rw [List.map_map, List.map_map]
  refine List.map_congr_left ?_
  intro r hr
  obtain ⟨x, h1, h2, hans⟩ := h.answers hcur r hr
  exact (hans.savedEntry h1 h2).2

/-- **The entries can be written back**, also when other pages of the range have
    changed in between. -/
theorem Collected.restorable {A : Set Nat} {V : NativeProtection → Prop} {t : PageMap}
    {cur : BitVec 64} {rs : List (BasicRegion 64)} (h : Collected ps s last cur rs)
    (hcur : first ≤ cur) (hlt : first < last) (hV : ∀ q prot, s q = some prot → V prot)
    (hA : ∀ q ∈ rangePages ps first last, q ∈ A) (ht : RangeMapped ps t first last) :
    ∀ e ∈ rs.map (savedEntry first last), Restorable ps A V t e := by
  intro e he
  obtain ⟨r, hr, rfl⟩ := List.mem_map.mp he
  obtain ⟨x, h1, h2, hans⟩ := h.answers hcur r hr
  obtain ⟨hbounds, hwrite⟩ := hans.savedEntry h1 h2
  have hcells : ∀ q ∈ (entryWrite ps (savedEntry first last r)).cells,
      q ∈ rangePages ps first last := by
    intro q hq
    rw [hwrite] at hq
    rw [rangePages_eq_Icc hlt]
    exact ⟨(max_le_iff.mp hq.1).2, (le_min_iff.mp hq.2).2⟩
  refine ⟨hbounds, ?_, fun q hq => ⟨hA q (hcells q hq), ht q (hcells q hq)⟩⟩
  exact hV _ _ (hans.holdsIn _ hans.page.1 hans.page.2)

/-! ## The two ways back -/

/-- The last two bytes of the range have the same protection. -/
def LastTwoMatch (ps : PageSize) (s : PageMap) (first last : BitVec 64) : Prop :=
  first.toNat + 1 < last.toNat →
    s ((last.toNat - 2) / ps.bytes) = s ((last.toNat - 1) / ps.bytes)

/-- All pages that meet the range have the same protection. -/
def UniformRange (ps : PageSize) (s : PageMap) (first last : BitVec 64) : Prop :=
  ∀ q ∈ rangePages ps first last, ∀ q' ∈ rangePages ps first last, s q = s q'

/-- What is wrong behind the last run is wrong for the last two bytes. -/
theorem Collected.lastTwoMatch_iff {rs : List (BasicRegion 64)}
    (h : Collected ps s last first rs) (hlt : first < last) :
    (reached (first.toNat / ps.bytes) (rs.map (pageRun ps)) = (last.toNat - 1) / ps.bytes →
        s ((last.toNat - 1) / ps.bytes - 1) = s ((last.toNat - 1) / ps.bytes))
      ↔ LastTwoMatch ps s first last := by
  have hpos := ps.pos_bytes
  have hlt' : first.toNat < last.toNat := hlt
  have hne : rs ≠ [] := by
    rintro rfl
    cases h with
    | stop hstop => exact hstop hlt
  have hlast := h.last_le hne
  have hentered := h.enteredAt
  have hreach : first.toNat / ps.bytes
      < reached (first.toNat / ps.bytes) (rs.map (pageRun ps)) :=
    hentered.lt_reached (fun hnil => hne (List.map_eq_nil_iff.mp hnil))
  generalize hR : reached (first.toNat / ps.bytes) (rs.map (pageRun ps)) = R at hlast hreach
  generalize hb : (last.toNat - 1) / ps.bytes = b
  have hbmul : b * ps.bytes ≤ last.toNat - 1 := by
    rw [← hb]
    exact Nat.div_mul_le_self ..
  have hbR : b ≤ R := by
    have hle : last.toNat - 1 ≤ R * ps.bytes := by omega
    rw [← hb]
    exact (Nat.div_le_div_right hle).trans (Nat.le_of_eq (Nat.mul_div_cancel R hpos))
  by_cases haligned : b * ps.bytes + 1 = last.toNat
  · -- the last byte begins a page
    have htwo : first.toNat + 1 < last.toNat → (last.toNat - 2) / ps.bytes = b - 1 := by
      intro hroom
      have hsucc : last.toNat - 1 = last.toNat - 2 + 1 := by omega
      have hdvd : ps.bytes ∣ last.toNat - 2 + 1 := ⟨b, by rw [Nat.mul_comm]; omega⟩
      rw [← hb, hsucc, Nat.succ_div_of_dvd hdvd, Nat.add_sub_cancel]
    constructor
    · intro hwrong hroom
      rw [htwo hroom, hb]
      by_cases heq : R = b
      · exact hwrong heq
      · refine h.last_two haligned (by omega) ?_
        rw [hR]
        omega
    · intro hmatch heq
      have hroom : first.toNat + 1 < last.toNat := by
        have hdiv : first.toNat < b * ps.bytes := (Nat.div_lt_iff_lt_mul hpos).mp (heq ▸ hreach)
        omega
      rw [← htwo hroom, hmatch hroom, hb]
  · -- the last two bytes are on one page, and the last run covers it
    have hsame : first.toNat + 1 < last.toNat → (last.toNat - 2) / ps.bytes = b := by
      intro hroom
      refine Nat.le_antisymm ?_ ((Nat.le_div_iff_mul_le hpos).mpr (by omega))
      rw [← hb]
      exact Nat.div_le_div_right (by omega)
    constructor
    · intro _ hroom
      rw [hsame hroom, hb]
    · intro _ heq
      rw [heq] at hlast
      omega

end VmUtils
