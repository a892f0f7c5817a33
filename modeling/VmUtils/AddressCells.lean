import VmUtils.QueryResult

/-! # The cells of a listing

    The mappings of a listing and the gaps in front of them, in order, cut the
    addresses up to the last end into cells.  A query that returns finds the first
    cell that reaches the address, where a mapping reaches one byte further than
    a gap (`find?_cellsFrom`). -/

namespace VmUtils

open Intervals

/-- The mappings, each behind the gap in front of it; `prev` is where the gap in
    front of the first one begins. -/
def cellsFrom : BitVec 64 → List MapsLine → List (BasicRegion 64)
  | _, [] => []
  | prev, l :: ls =>
      if prev < l.beginAddr then
        BasicRegion.free prev l.beginAddr :: l.region :: cellsFrom l.endAddr ls
      else l.region :: cellsFrom l.endAddr ls

/-- The mappings and gaps of a listing up to its last end. -/
def Listing.cells (L : Listing) : List (BasicRegion 64) := cellsFrom 0 L.lines

/-- The cell is the one a query for `a` stops at, if no earlier one is. -/
def Reaches (a : BitVec 64) (c : BasicRegion 64) : Bool :=
  if c.used then decide (a ≤ c.endAddr) else decide (a < c.endAddr)

/-- The bounds of a cell as numbers. -/
def cellLo (c : BasicRegion 64) : Nat := c.beginAddr.toNat

def cellHi (c : BasicRegion 64) : Nat := c.endAddr.toNat

/-! ## The cells in order -/

variable {prev : BitVec 64} {lines : List MapsLine}

/-- The cells of a record and of those behind it. -/
theorem mem_cellsFrom_cons {m : MapsLine} {ms : List MapsLine} {c : BasicRegion 64} :
    c ∈ cellsFrom prev (m :: ms)
      ↔ (prev < m.beginAddr ∧ c = BasicRegion.free prev m.beginAddr) ∨ c = m.region
        ∨ c ∈ cellsFrom m.endAddr ms := by
  rw [cellsFrom]
  by_cases hgap : prev < m.beginAddr
  · rw [if_pos hgap, List.mem_cons, List.mem_cons, and_iff_right hgap]
  · have hno : ¬ (prev < m.beginAddr ∧ c = BasicRegion.free prev m.beginAddr) :=
      fun h => hgap h.1
    rw [if_neg hgap, List.mem_cons, or_iff_right hno]

/-- No cell begins in front of `prev`. -/
theorem le_cells (hasc : Ascending lineLo lineHi lines) (hprev : ∀ l ∈ lines, prev ≤ l.beginAddr) :
    ∀ c ∈ cellsFrom prev lines, prev ≤ c.beginAddr := by
  induction lines generalizing prev with
  | nil =>
      intro c hc
      exact absurd hc List.not_mem_nil
  | cons m ms ih =>
      intro c hc
      have hm : prev ≤ m.beginAddr := hprev m (List.mem_cons_self ..)
      have hlt : m.beginAddr < m.endAddr := hasc.head_lt
      have hrest : ∀ c ∈ cellsFrom m.endAddr ms, prev ≤ c.beginAddr := by
        intro c hc
        have hle := ih hasc.tail hasc.head_le c hc
        bv_omega
      rcases mem_cellsFrom_cons.mp hc with ⟨-, rfl⟩ | rfl | hc
      · exact Nat.le_refl _
      · exact hm
      · exact hrest c hc

/-- **The cells ascend.** -/
theorem cellsFrom_ascending (hasc : Ascending lineLo lineHi lines)
    (hprev : ∀ l ∈ lines, prev ≤ l.beginAddr) :
    Ascending cellLo cellHi (cellsFrom prev lines) := by
  induction lines generalizing prev with
  | nil => exact ⟨fun c hc => absurd hc List.not_mem_nil, List.Pairwise.nil⟩
  | cons m ms ih =>
      have hlt : m.beginAddr < m.endAddr := hasc.head_lt
      have hrest : Ascending cellLo cellHi (m.region :: cellsFrom m.endAddr ms) :=
        (ih hasc.tail hasc.head_le).cons hlt (le_cells hasc.tail hasc.head_le)
      rw [cellsFrom]
      by_cases hgap : prev < m.beginAddr
      · rw [if_pos hgap]
        refine hrest.cons hgap ?_
        intro c hc
        rcases List.mem_cons.mp hc with rfl | hc
        · exact Nat.le_refl _
        · have hle : m.endAddr ≤ c.beginAddr := le_cells hasc.tail hasc.head_le c hc
          show m.beginAddr.toNat ≤ c.beginAddr.toNat
          bv_omega
      · rw [if_neg hgap]
        exact hrest

/-- The first cell begins at `prev`. -/
theorem cellsFrom_head (hprev : ∀ l ∈ lines, prev ≤ l.beginAddr) :
    ∀ c ∈ (cellsFrom prev lines).head?, prev = c.beginAddr := by
  cases lines with
  | nil =>
      intro c hc
      exact nomatch hc
  | cons m ms =>
      intro c hc
      rw [cellsFrom] at hc
      by_cases hgap : prev < m.beginAddr
      · rw [if_pos hgap] at hc
        obtain rfl := Option.some.inj hc
        rfl
      · rw [if_neg hgap] at hc
        obtain rfl := Option.some.inj hc
        have hle := hprev m (List.mem_cons_self ..)
        show prev = m.beginAddr
        bv_omega

/-- **The cells leave nothing out**: each begins where the one in front ends. -/
theorem cellsFrom_isChain (hasc : Ascending lineLo lineHi lines)
    (hprev : ∀ l ∈ lines, prev ≤ l.beginAddr) :
    (cellsFrom prev lines).IsChain (fun c c' => c.endAddr = c'.beginAddr) := by
  induction lines generalizing prev with
  | nil => exact List.isChain_nil
  | cons m ms ih =>
      have hrest : (m.region :: cellsFrom m.endAddr ms).IsChain
          (fun c c' => c.endAddr = c'.beginAddr) :=
        List.isChain_cons.mpr ⟨cellsFrom_head hasc.head_le, ih hasc.tail hasc.head_le⟩
      rw [cellsFrom]
      by_cases hgap : prev < m.beginAddr
      · rw [if_pos hgap]
        exact List.isChain_cons_cons.mpr ⟨rfl, hrest⟩
      · rw [if_neg hgap]
        exact hrest

/-- The bounds of the cells are bounds of the listing, or `prev`. -/
theorem cellsFrom_bounds {P : BitVec 64 → Prop} (hprev : P prev)
    (hlines : ∀ l ∈ lines, P l.beginAddr ∧ P l.endAddr) :
    ∀ c ∈ cellsFrom prev lines, P c.beginAddr ∧ P c.endAddr := by
  induction lines generalizing prev with
  | nil =>
      intro c hc
      exact absurd hc List.not_mem_nil
  | cons m ms ih =>
      intro c hc
      obtain ⟨hb, he⟩ := hlines m (List.mem_cons_self ..)
      have hrest := ih he (fun l hl => hlines l (List.mem_cons_of_mem _ hl))
      rcases mem_cellsFrom_cons.mp hc with ⟨-, rfl⟩ | rfl | hc
      · exact ⟨hprev, hb⟩
      · exact ⟨hb, he⟩
      · exact hrest c hc

/-! ## Looking an address up -/

@[simp] theorem reaches_free (a b e : BitVec 64) :
    Reaches a (BasicRegion.free b e) = decide (a < e) := rfl

@[simp] theorem reaches_region (a : BitVec 64) (l : MapsLine) :
    Reaches a l.region = decide (a ≤ l.endAddr) := rfl

/-- A cell that reaches an address reaches every smaller one. -/
theorem Reaches.mono {a a' : BitVec 64} {c : BasicRegion 64} (hle : a ≤ a')
    (h : Reaches a' c = true) : Reaches a c = true := by
  rw [Reaches] at h ⊢
  by_cases hu : c.used = true
  · rw [if_pos hu, decide_eq_true_eq] at h ⊢
    bv_omega
  · rw [if_neg hu, decide_eq_true_eq] at h ⊢
    bv_omega

/-- **A query is a lookup among the cells**, whenever a record decides. -/
theorem find?_cellsFrom {a : BitVec 64} (hprev : prev ≤ a) :
    (cellsFrom prev lines).find? (Reaches a)
      = if ∃ m ∈ lines, a < m.beginAddr ∨ a ≤ m.endAddr then some (scanRegion a prev lines)
        else none := by
  induction lines generalizing prev with
  | nil =>
      rw [if_neg]
      · rfl
      · rintro ⟨m, hm, -⟩
        exact absurd hm List.not_mem_nil
  | cons m ms ih =>
      rw [cellsFrom, scanRegion]
      by_cases hb : a < m.beginAddr
      · -- the gap in front of the record is not empty
        have hgap : prev < m.beginAddr := by bv_omega
        rw [if_pos hgap, if_pos hb, if_pos ⟨m, List.mem_cons_self .., Or.inl hb⟩]
        exact List.find?_cons_of_pos (by rw [reaches_free]; exact decide_eq_true hb)
      · have hskip : ∀ rest, (BasicRegion.free prev m.beginAddr :: rest).find? (Reaches a)
            = rest.find? (Reaches a) := by
          intro rest
          exact List.find?_cons_of_neg (by rw [reaches_free, decide_eq_true_eq]; exact hb)
        have hsame : (if prev < m.beginAddr then
              BasicRegion.free prev m.beginAddr :: m.region :: cellsFrom m.endAddr ms
            else m.region :: cellsFrom m.endAddr ms).find? (Reaches a)
            = (m.region :: cellsFrom m.endAddr ms).find? (Reaches a) := by
          by_cases hgap : prev < m.beginAddr
          · rw [if_pos hgap, hskip]
          · rw [if_neg hgap]
        rw [hsame, if_neg hb]
        by_cases he : m.endAddr < a
        · rw [if_pos he, List.find?_cons_of_neg, ih (Nat.le_of_lt he)]
          · simp only [decides_cons_iff hb he]
          · rw [reaches_region, decide_eq_true_eq]
            exact Nat.not_le.mpr he
        · have hle : a ≤ m.endAddr := Nat.le_of_not_lt he
          rw [if_neg he, if_pos ⟨m, List.mem_cons_self .., Or.inr hle⟩]
          exact List.find?_cons_of_pos (by rw [reaches_region]; exact decide_eq_true hle)

/-- **`query(a)` returns the first cell that reaches `a`.** -/
theorem query_eq_ok_iff {os : Process} {handle : Int} {L : Listing}
    (hopen : os.openFile (mapsPath handle) = some L.text) (u : Uninit) (a : BitVec 64)
    (r : BasicRegion 64) :
    query 64 os u handle a = .ok r ↔ L.cells.find? (Reaches a) = some r := by
  have hzero : (0 : BitVec 64) ≤ a := Nat.zero_le _
  rw [query_listing hopen, Listing.cells, find?_cellsFrom hzero]
  by_cases h : ∃ m ∈ L.lines, a < m.beginAddr ∨ a ≤ m.endAddr
  · rw [if_pos h, if_pos h, Except.ok.injEq, Option.some.injEq]
  · rw [if_neg h, if_neg h]
    constructor
    · intro heq
      exact nomatch heq
    · intro heq
      exact nomatch heq

theorem queryLocal_eq_ok_iff {os : Process} {L : Listing}
    (hopen : os.openFile (mapsPath os.getpid) = some L.text) (u : Uninit) (a : BitVec 64)
    (r : BasicRegion 64) :
    queryLocal 64 os u a = .ok r ↔ L.cells.find? (Reaches a) = some r := by
  rw [queryLocal, addressCast_self]
  exact query_eq_ok_iff hopen u a r

end VmUtils
