import VmUtils.RecordScan
import VmUtils.AddressCells
import VmUtils.UninitLocals
import VmUtils.WindowsQueryBytes

/-! # Regions with narrow addresses

    `query` with an address type narrower than that of the system: a bound that
    does not fit has to be reported as an overflow (`AddressRule`), and no byte
    outside the objects of the casts may change (`FollowsAddressRule`).  The numbers
    follow the rule on Linux but for the end that is made up for the memory above
    the last mapping (`queryEc_addressRule_iff`).  The bytes do only where the lower
    bound does not fit, since a cast that returns overruns its target
    (`queryEcIn_addressRule_iff`).  On Windows `parse_info` is `noexcept`, so that an
    overflow ends the program there, and the rule is never followed
    (`windowsQueryEcIn_not_addressRule`). -/

namespace VmUtils

open TextStream Intervals ByteMemory StoreEffects

variable {w : Nat}

/-- The rule for an answer with addresses of `w` bits, `bounds` being those of the
    memory of the system: the region has bounds of the system and contains the
    address, or else bounds around the address do not fit. -/
def AddressRule (w : Nat) (bounds : List (BitVec 64 × BitVec 64)) (a : BitVec 64) :
    Except Exn (BasicRegion w × ErrorCode) → Prop
  | .ok (r, _) => ∃ b ∈ bounds, r.begin.toNat = b.1.toNat ∧ (r.begin + r.size).toNat = b.2.toNat
      ∧ r.begin.toNat ≤ a.toNat ∧ a.toNat ≤ (r.begin + r.size).toNat
  | .error (.overflowError _) =>
      ∃ b ∈ bounds, b.1 ≤ a ∧ a ≤ b.2 ∧ (2 ^ w ≤ b.1.toNat ∨ 2 ^ w ≤ b.2.toNat)
  | .error _ => False

/-! ## Linux -/

/-- The bounds of the mappings and gaps, the last gap ending with the address
    space. -/
def Listing.bounds (L : Listing) : List (BitVec 64 × BitVec 64) :=
  L.cells.map (fun c => (c.beginAddr, c.endAddr)) ++ [(lastEnd 0 L.lines, BitVec.allOnes 64)]

/-- The bounds around the address fit, or one of them is refused. -/
theorem castBounds_cases (w : Nat) (r : BasicRegion 64) :
    (r.beginAddr.toNat < 2 ^ w ∧ r.endAddr.toNat < 2 ^ w
        ∧ ∃ r', r.castBounds w = .ok r' ∧ r'.begin.toNat = r.beginAddr.toNat
          ∧ (r'.begin + r'.size).toNat = r.endAddr.toNat)
      ∨ ((2 ^ w ≤ r.beginAddr.toNat ∨ 2 ^ w ≤ r.endAddr.toNat)
        ∧ ∃ what, r.castBounds w = .error (.overflowError what)) := by
  rw [BasicRegion.castBounds]
  rcases Nat.lt_or_ge r.beginAddr.toNat (2 ^ w) with hb | hb
  · obtain ⟨hcast, hnum⟩ := addressCast_of_lt hb
    rcases Nat.lt_or_ge r.endAddr.toNat (2 ^ w) with he | he
    · obtain ⟨hcast', hnum'⟩ := addressCast_of_lt he
      refine Or.inl ⟨hb, he, ⟨r.beginAddr.setWidth w, r.endAddr.setWidth w, r.protection, r.used,
        r.shared, r.guarded⟩, ?_, hnum, ?_⟩
      · rw [hcast, hcast']
        rfl
      · rw [begin_add_size]
        exact hnum'
    · obtain ⟨what, herr⟩ := addressCast_of_le he
      exact Or.inr ⟨Or.inr he, what, by rw [hcast, herr]; rfl⟩
  · obtain ⟨what, herr⟩ := addressCast_of_le hb
    exact Or.inr ⟨Or.inl hb, what, by rw [herr]; rfl⟩

variable {lines : List MapsLine} {prev a : BitVec 64}

/-- The cell of the scan contains the address, its end included. -/
theorem scanRegion_contains (hprev : prev ≤ a)
    (h : ∃ m ∈ lines, a < m.beginAddr ∨ a ≤ m.endAddr) :
    (scanRegion a prev lines).beginAddr ≤ a ∧ a ≤ (scanRegion a prev lines).endAddr := by
  induction lines generalizing prev with
  | nil =>
      obtain ⟨m, hm, -⟩ := h
      exact absurd hm List.not_mem_nil
  | cons m ms ih =>
      rw [scanRegion]
      by_cases hb : a < m.beginAddr
      · rw [if_pos hb]
        exact ⟨hprev, Nat.le_of_lt hb⟩
      · rw [if_neg hb]
        by_cases he : m.endAddr < a
        · rw [if_pos he]
          exact ih (Nat.le_of_lt he) ((decides_cons_iff hb he ms).mp h)
        · rw [if_neg he]
          exact ⟨Nat.le_of_not_lt hb, Nat.le_of_not_lt he⟩

/-- The answer of the scan is one of the cells. -/
theorem scanRegion_mem_cells {L : Listing} {a : BitVec 64}
    (h : ∃ m ∈ L.lines, a < m.beginAddr ∨ a ≤ m.endAddr) :
    scanRegion a 0 L.lines ∈ L.cells := by
  have hzero : (0 : BitVec 64) ≤ a := Nat.zero_le _
  refine List.mem_of_find?_eq_some (p := Reaches a) ?_
  rw [Listing.cells, find?_cellsFrom hzero, if_pos h]

/-- No cell ends behind the last record. -/
theorem cells_le_lastEnd {L : Listing} (hne : L.lines ≠ []) :
    (∃ l ∈ L.lines, lastEnd 0 L.lines = l.endAddr)
      ∧ (∀ l ∈ L.lines, l.endAddr ≤ lastEnd 0 L.lines)
      ∧ ∀ c ∈ L.cells, c.endAddr ≤ lastEnd 0 L.lines := by
  obtain ⟨z, hz⟩ : ∃ z, L.lines.getLast? = some z :=
    ⟨_, List.getLast?_eq_some_getLast hne⟩
  have hlast : lastEnd 0 L.lines = z.endAddr := by rw [lastEnd, hz]
  have hle : ∀ l ∈ L.lines, l.endAddr ≤ z.endAddr := fun l hl => (L.ascending.le_last hz l hl).2
  rw [hlast]
  refine ⟨⟨z, List.mem_of_getLast? hz, rfl⟩, hle, ?_⟩
  intro c hc
  refine (cellsFrom_bounds (P := fun x => x ≤ z.endAddr) (Nat.zero_le _) ?_ c hc).2
  intro l hl
  have hlt := L.begin_lt_end l hl
  have hend := hle l hl
  exact ⟨Nat.le_of_lt (Nat.lt_of_lt_of_le hlt hend), hend⟩

/-- In a listing the record that ends at or above the address decides. -/
theorem decides_iff {L : Listing} {a : BitVec 64} :
    (∃ m ∈ L.lines, a < m.beginAddr ∨ a ≤ m.endAddr) ↔ ∃ m ∈ L.lines, a ≤ m.endAddr := by
  constructor
  · rintro ⟨m, hm, h | h⟩
    · exact ⟨m, hm, Nat.le_of_lt (Nat.lt_trans h (L.begin_lt_end m hm))⟩
    · exact ⟨m, hm, h⟩
  · rintro ⟨m, hm, h⟩
    exact ⟨m, hm, Or.inr h⟩

/-- Up to the last mapping the numbers follow the rule. -/
theorem addressRule_of_decides {L : Listing} (ec : ErrorCode)
    (h : ∃ m ∈ L.lines, a < m.beginAddr ∨ a ≤ m.endAddr) :
    AddressRule w L.bounds a (((scanRegion a 0 L.lines).castBounds w).map (fun r => (r, ec))) := by
  have hmem : ((scanRegion a 0 L.lines).beginAddr, (scanRegion a 0 L.lines).endAddr)
      ∈ L.bounds :=
    List.mem_append_left _ (List.mem_map.mpr ⟨_, scanRegion_mem_cells h, rfl⟩)
  have hzero : (0 : BitVec 64) ≤ a := Nat.zero_le _
  obtain ⟨hlo, hhi⟩ := scanRegion_contains hzero h
  rcases castBounds_cases w (scanRegion a 0 L.lines) with
    ⟨-, -, r', hr', hb, he⟩ | ⟨hbig, what, herr⟩
  · rw [hr']
    refine ⟨_, hmem, hb, he, ?_, ?_⟩
    · rw [hb]
      exact hlo
    · rw [he]
      exact hhi
  · rw [herr]
    exact ⟨_, hmem, hlo, hhi, hbig⟩

/-- The end that is made up for the free memory behind `z` is no bound of a cell. -/
theorem not_addressRule_free {L : Listing} {z : BitVec 64} (hw : w < 64)
    (hza : z.toNat < a.toNat) (hcells : ∀ c ∈ L.cells, c.endAddr ≤ z)
    (ec : ErrorCode) :
    ¬ AddressRule w L.bounds a
        (.ok (BasicRegion.free (z.setWidth w) (BitVec.allOnes w), ec)) := by
  rintro ⟨b, hb, -, hend, -, ha⟩
  rw [begin_add_size] at hend ha
  have hend' : (BitVec.allOnes w).toNat = b.2.toNat := hend
  have ha' : a.toNat ≤ (BitVec.allOnes w).toNat := ha
  rcases List.mem_append.mp hb with hb | hb
  · -- the cells end below the address
    obtain ⟨c, hc, rfl⟩ := List.mem_map.mp hb
    have hle : c.endAddr.toNat ≤ z.toNat := hcells c hc
    have hend'' : (BitVec.allOnes w).toNat = c.endAddr.toNat := hend'
    omega
  · have hlt : 2 ^ w < 2 ^ 64 := Nat.pow_lt_pow_right (by decide) hw
    have hpos : 0 < 2 ^ w := Nat.two_pow_pos w
    rw [List.mem_singleton.mp hb, BitVec.toNat_allOnes, BitVec.toNat_allOnes] at hend'
    omega

/-- Above the last mapping the numbers need a last end that does not fit. -/
theorem addressRule_above_iff {L : Listing} (hw : w < 64) (hne : L.lines ≠ []) (ec : ErrorCode)
    (h : ∀ m ∈ L.lines, m.endAddr < a) :
    AddressRule w L.bounds a ((aboveResult w (lastEnd 0 L.lines)).map (fun r => (r, ec)))
      ↔ ∃ l ∈ L.lines, 2 ^ w ≤ l.endAddr.toNat := by
  obtain ⟨⟨z, hz, hlast⟩, hlines, hcells⟩ := cells_le_lastEnd hne
  have hza : z.endAddr.toNat < a.toNat := h z hz
  have hmem : (lastEnd 0 L.lines, BitVec.allOnes 64) ∈ L.bounds :=
    List.mem_append_right _ (List.mem_singleton_self _)
  rw [aboveResult]
  rw [hlast] at hlines hcells hmem ⊢
  rcases Nat.lt_or_ge z.endAddr.toNat (2 ^ w) with hfits | hbig
  · have hnone : ¬ ∃ l ∈ L.lines, 2 ^ w ≤ l.endAddr.toNat := by
      rintro ⟨l, hl, hle⟩
      have : l.endAddr.toNat ≤ z.endAddr.toNat := hlines l hl
      omega
    rw [(addressCast_of_lt hfits).1, addressCastUnchecked_self]
    exact iff_of_false (not_addressRule_free hw hza hcells ec) hnone
  · obtain ⟨what, herr⟩ := addressCast_of_le hbig
    have htop : a ≤ BitVec.allOnes 64 := Nat.le_sub_one_of_lt a.isLt
    rw [herr]
    exact iff_of_true ⟨_, hmem, Nat.le_of_lt hza, htop, Or.inl hbig⟩ ⟨z, hz, hbig⟩

/-- **The rule on Linux**, as far as the numbers go. -/
theorem queryEc_addressRule_iff {os : Process} {handle : Int} {L : Listing} (hw : w < 64)
    (hopen : os.openFile (mapsPath handle) = some L.text) (hne : L.lines ≠ []) (u : Uninit)
    (ec : ErrorCode) :
    AddressRule w L.bounds a (queryEc w os u handle a ec)
      ↔ (∃ l ∈ L.lines, a ≤ l.endAddr) ∨ ∃ l ∈ L.lines, 2 ^ w ≤ l.endAddr.toNat := by
  have hscan : queryEc w os u handle a ec
      = (if ∃ m ∈ L.lines, a < m.beginAddr ∨ a ≤ m.endAddr then
          (scanRegion a 0 L.lines).castBounds w
        else aboveResult w (lastEnd 0 L.lines)).map (fun r => (r, ec)) := by
    rw [queryEc_open hopen, addressCast_self, ← queryImpl_castBounds hne u]
    rfl
  rw [hscan, ← decides_iff]
  by_cases h : ∃ m ∈ L.lines, a < m.beginAddr ∨ a ≤ m.endAddr
  · rw [if_pos h]
    exact iff_of_true (addressRule_of_decides ec h) (Or.inl h)
  · rw [if_neg h, or_iff_right h]
    refine addressRule_above_iff hw hne ec ?_
    intro m hm
    exact Nat.lt_of_not_le (fun hle => h ⟨m, hm, Or.inr hle⟩)

/-- The lower bound of the answer does not fit: a mapping ends below the address
    beyond `w` bits, or one begins beyond them up to the address, and so does the one
    that ends at the address. -/
def Listing.StartsBeyond (L : Listing) (w : Nat) (a : BitVec 64) : Prop :=
  (∃ l ∈ L.lines, l.endAddr < a ∧ 2 ^ w ≤ l.endAddr.toNat)
    ∨ ∃ l ∈ L.lines, l.beginAddr ≤ a ∧ 2 ^ w ≤ l.beginAddr.toNat
      ∧ ∀ m ∈ L.lines, m.endAddr = a → 2 ^ w ≤ m.beginAddr.toNat

instance (L : Listing) (w : Nat) (a : BitVec 64) : Decidable (L.StartsBeyond w a) :=
  inferInstanceAs (Decidable (_ ∨ _))

/-- The same for the lines of a listing and any limit `N`. -/
def BeginsBeyond (N : Nat) (a : BitVec 64) (lines : List MapsLine) : Prop :=
  (∃ l ∈ lines, l.endAddr < a ∧ N ≤ l.endAddr.toNat)
    ∨ ∃ l ∈ lines, l.beginAddr ≤ a ∧ N ≤ l.beginAddr.toNat
      ∧ ∀ m ∈ lines, m.endAddr = a → N ≤ m.beginAddr.toNat

/-- No mapping begins up to the address. -/
theorem not_beginsBeyond {N : Nat} (hasc : Ascending lineLo lineHi lines)
    (h : ∀ l ∈ lines, a < l.beginAddr) : ¬ BeginsBeyond N a lines := by
  rintro (⟨l, hl, hla, -⟩ | ⟨l, hl, hla, -⟩)
  · have hpos : l.beginAddr.toNat < l.endAddr.toNat := hasc.nonempty l hl
    have hlt : a.toNat < l.beginAddr.toNat := h l hl
    have hla' : l.endAddr.toNat < a.toNat := hla
    omega
  · exact absurd (h l hl) (Nat.not_lt.mpr hla)

/-- The address lies behind the first mapping. -/
theorem beginsBeyond_cons_behind {N : Nat} {m : MapsLine} (hm : m.beginAddr < m.endAddr)
    (hbehind : m.endAddr < a) :
    BeginsBeyond N a (m :: lines) ↔ N ≤ m.endAddr.toNat ∨ BeginsBeyond N a lines := by
  have hm' : m.beginAddr.toNat < m.endAddr.toNat := hm
  constructor
  · rintro (⟨l, hl, hla, h⟩ | ⟨l, hl, hla, h, hend⟩)
    · rcases List.mem_cons.mp hl with rfl | hl
      · exact Or.inl h
      · exact Or.inr (Or.inl ⟨l, hl, hla, h⟩)
    · rcases List.mem_cons.mp hl with rfl | hl
      · exact Or.inl (by omega)
      · exact Or.inr (Or.inr ⟨l, hl, hla, h,
          fun m' hm' => hend m' (List.mem_cons_of_mem _ hm')⟩)
  · rintro (h | ⟨l, hl, h⟩ | ⟨l, hl, hla, h, hend⟩)
    · exact Or.inl ⟨m, List.mem_cons_self .., hbehind, h⟩
    · exact Or.inl ⟨l, List.mem_cons_of_mem _ hl, h⟩
    · refine Or.inr ⟨l, List.mem_cons_of_mem _ hl, hla, h, ?_⟩
      intro m' hm' heq
      rcases List.mem_cons.mp hm' with rfl | hm'
      · exact absurd heq (BitVec.ne_of_lt hbehind)
      · exact hend m' hm' heq

/-- The address lies in the first mapping or at its end. -/
theorem beginsBeyond_cons_here {N : Nat} {m : MapsLine}
    (hasc : Ascending lineLo lineHi (m :: lines)) (hb : m.beginAddr ≤ a) (he : a ≤ m.endAddr) :
    BeginsBeyond N a (m :: lines) ↔ N ≤ m.beginAddr.toNat := by
  have hbn : m.beginAddr.toNat ≤ a.toNat := hb
  have hen : a.toNat ≤ m.endAddr.toNat := he
  have hle : ∀ l ∈ lines, m.endAddr.toNat ≤ l.beginAddr.toNat := hasc.head_le
  constructor
  · rintro (⟨l, hl, hla, -⟩ | ⟨l, hl, hla, h, hend⟩)
    · have hlan : l.endAddr.toNat < a.toNat := hla
      have hpos : l.beginAddr.toNat < l.endAddr.toNat := hasc.nonempty l hl
      rcases List.mem_cons.mp hl with rfl | hl
      · omega
      · have := hle l hl
        omega
    · have hlan : l.beginAddr.toNat ≤ a.toNat := hla
      rcases List.mem_cons.mp hl with rfl | hl
      · exact h
      · -- the mapping behind begins at the address, where this one ends
        have := hle l hl
        exact hend m (List.mem_cons_self ..) (BitVec.eq_of_toNat_eq (by omega))
  · intro h
    refine Or.inr ⟨m, List.mem_cons_self .., hb, h, ?_⟩
    intro m' hm' heq
    rcases List.mem_cons.mp hm' with rfl | hm'
    · exact h
    · have := hle m' hm'
      omega

/-- The lower bound of the scan, `prev` being the end of the mapping in front. -/
theorem le_scanRegion_begin_iff {N : Nat} (hasc : Ascending lineLo lineHi lines)
    (hprev : ∀ l ∈ lines, prev ≤ l.beginAddr) :
    N ≤ (scanRegion a prev lines).beginAddr.toNat ↔ N ≤ prev.toNat ∨ BeginsBeyond N a lines := by
  induction lines generalizing prev with
  | nil =>
      refine (or_iff_left (not_beginsBeyond hasc ?_)).symm
      intro l hl
      exact absurd hl List.not_mem_nil
  | cons m ms ih =>
      have hm : m.beginAddr < m.endAddr := hasc.head_lt
      have hpm : prev.toNat ≤ m.beginAddr.toNat := hprev m (List.mem_cons_self ..)
      rw [scanRegion]
      by_cases hb : a < m.beginAddr
      · rw [if_pos hb]
        refine (or_iff_left (not_beginsBeyond hasc ?_)).symm
        intro l hl
        rcases List.mem_cons.mp hl with rfl | hl
        · exact hb
        · have hle : m.endAddr.toNat ≤ l.beginAddr.toNat := hasc.head_le l hl
          have hmn : m.beginAddr.toNat < m.endAddr.toNat := hm
          have hbn : a.toNat < m.beginAddr.toNat := hb
          show a.toNat < l.beginAddr.toNat
          omega
      · have hmn : m.beginAddr.toNat < m.endAddr.toNat := hm
        rw [if_neg hb]
        by_cases he : m.endAddr < a
        · -- the end of the mapping that is passed takes the place of `prev`
          rw [if_pos he, ih hasc.tail hasc.head_le, beginsBeyond_cons_behind hm he]
          exact (or_iff_right_of_imp (fun h => Or.inl (by omega))).symm
        · rw [if_neg he, beginsBeyond_cons_here hasc (Nat.le_of_not_lt hb) (Nat.le_of_not_lt he)]
          exact (or_iff_right_of_imp (fun h => h.trans hpm)).symm

theorem Listing.startsBeyond_iff (L : Listing) :
    L.StartsBeyond w a ↔ 2 ^ w ≤ (scanRegion a 0 L.lines).beginAddr.toNat := by
  have hpos : 0 < 2 ^ w := Nat.two_pow_pos w
  rw [le_scanRegion_begin_iff L.ascending (fun l _ => Nat.zero_le _), or_iff_right]
  · rfl
  · exact Nat.not_le.mpr hpos

/-- **What the README promises of a query**: the numbers follow the address rule, and
    no byte outside the objects of the casts changes. -/
structure FollowsAddressRule (w : Nat) (bounds : List (BitVec 64 × BitVec 64)) (a : BitVec 64)
    (objects : Nat → Prop) (query : OsM Memory (BasicRegion w × ErrorCode)) : Prop where
  numbers : ∀ m, AddressRule w bounds a (query.run m).1
  bytes : WritesOnly objects query

/-- The casts of the bounds one behind the other, that of the lower bound first. -/
def sampleBoundFrames : BoundFrames .four .eight where
  lower := { check := .starting 0x20, copy := .starting 0 }
  upper := { check := .starting 0x40, copy := .starting 0x60 }

def sampleQueryFrames : QueryFrames .four .eight where
  address := { check := .starting 0x80, copy := .starting 0xa0 }
  bounds := sampleBoundFrames
  max := .starting 0xc0

/-- **The rule on Linux** for regions with 32-bit addresses: it is followed if the
    lower bound of the answer does not fit, and else four bytes too many are copied. -/
theorem queryEcIn_addressRule_iff {os : Process} {handle : Int} {L : Listing}
    (hopen : os.openFile (mapsPath handle) = some L.text) (hne : L.lines ≠ []) (u : Uninit)
    (ec : ErrorCode) :
    (∀ F : QueryFrames .four .eight,
        FollowsAddressRule 32 L.bounds a F.Covers (queryEcIn F os u handle a ec))
      ↔ L.StartsBeyond 32 a := by
  constructor
  · intro h
    by_contra hfits
    rw [Listing.startsBeyond_iff] at hfits
    have hleaves := queryEcIn_leaves hopen hne sampleQueryFrames u (Nat.lt_of_not_le hfits) ec
      (i := 4) (by decide) (by decide) (by decide) (by decide)
    exact hleaves.not_writesOnly 0xFF (by decide) (by decide) (h sampleQueryFrames).bytes
  · intro h F
    refine ⟨fun m => ?_, queryEcIn_inside hopen hne F u ((L.startsBeyond_iff).mp h) ec⟩
    rw [queryEcIn_yields F os u handle a ec m]
    refine (queryEc_addressRule_iff (by decide) hopen hne u ec).mpr (Or.inr ?_)
    rcases h with ⟨l, hl, -, hbig⟩ | ⟨l, hl, -, hbig, -⟩
    · exact ⟨l, hl, hbig⟩
    · have hlt : l.beginAddr.toNat < l.endAddr.toNat := L.begin_lt_end l hl
      exact ⟨l, hl, by omega⟩

/-! ## Windows -/

def sampleWindowsFrames : WindowsQueryFrames .four .eight .eight where
  address := { check := .starting 0x80, copy := .starting 0xa0 }
  parse := { base := .starting 0xc0, size := .starting 0xe0, bounds := sampleBoundFrames }

/-- **The rule on Windows** is never followed: a base address that fits is copied
    past its target, and one that does not ends the program. -/
theorem windowsQueryEcIn_not_addressRule {os : WindowsMemory} {handle : Int}
    {info : MemoryBasicInformation} (hinfo : os.virtualQueryEx handle a = .ok info)
    (stack : MemoryBasicInformation) (ec : ErrorCode)
    (bounds : List (BitVec 64 × BitVec 64)) :
    ¬ ∀ F : WindowsQueryFrames .four .eight .eight,
        FollowsAddressRule 32 bounds a F.Covers (windowsQueryEcIn F os stack handle a ec) := by
  intro h
  have hnative : nativeQueryEc os stack handle a ec = (info, ec) := by rw [nativeQueryEc, hinfo]
  rcases Nat.lt_or_ge info.baseAddress.toNat (2 ^ 32) with hfits | hbig
  · -- the cast of the base address returns, with four bytes copied behind its target
    have hleaves : Leaves 4 0 (windowsQueryEcIn sampleWindowsFrames os stack handle a ec) := by
      refine windowsQueryEcIn_leaves sampleWindowsFrames ?_
      rw [hnative]
      exact parseInfoIn_leaves sampleWindowsFrames.parse hfits (i := 4) (by decide) (by decide)
        (by decide)
    exact hleaves.not_writesOnly 0xFF (by decide) (by decide) (h sampleWindowsFrames).bytes
  · -- it throws inside `parse_info`
    have hrule := (h sampleWindowsFrames).numbers (fun _ => 0)
    rw [windowsQueryEcIn_yields sampleWindowsFrames os stack handle a ec _] at hrule
    have hterm : windowsQueryEc 32 os stack handle a ec = .error .terminate := by
      rw [windowsQueryEc_64, hnative, parseInfo_of_base hbig]
      rfl
    have hrule' : AddressRule 32 bounds a (windowsQueryEc 32 os stack handle a ec) := hrule
    rw [hterm] at hrule'
    exact hrule'

/-! ## 32-bit regions -/

/-- **The address rule for `query<std::uint32_t>(handle, a, ec)`** on Linux and on
    64-bit Windows, with the exact conditions. -/
theorem narrowQuery_addressRule_iff (proc : Process) (u : Uninit) (win : WindowsMemory)
    (stack : MemoryBasicInformation) (handle : Int) (L : Listing) (info : MemoryBasicInformation)
    (a : BitVec 64) (ec : ErrorCode)
    (hopen : proc.openFile (mapsPath handle) = some L.text) (hne : L.lines ≠ [])
    (hinfo : win.virtualQueryEx handle a = .ok info) :
    ((∀ F : QueryFrames .four .eight,
          FollowsAddressRule 32 L.bounds a F.Covers (queryEcIn F proc u handle a ec))
        ↔ L.StartsBeyond 32 a)
      ∧ ¬ ∀ F : WindowsQueryFrames .four .eight .eight,
          FollowsAddressRule 32 [(info.baseAddress, info.baseAddress + info.regionSize)] a
            F.Covers (windowsQueryEcIn F win stack handle a ec) :=
  ⟨queryEcIn_addressRule_iff hopen hne u ec, windowsQueryEcIn_not_addressRule hinfo stack ec _⟩

/-- A committed page behind the first 4 GiB. -/
def sampleInfo : MemoryBasicInformation := ⟨0x100000000, 0x1000, 0x1000, 0x04, memPrivate⟩

/-- A system that answers with that page. -/
def sampleWindowsMemory : WindowsMemory where
  virtualQueryEx := fun _ _ => .ok sampleInfo
  getCurrentProcess := -1

theorem narrowQuery_addressRule_iff_sample :
    ((∀ F : QueryFrames .four .eight, FollowsAddressRule 32 sampleListing.bounds 0x1800 F.Covers
          (queryEcIn F sampleProcess sampleUninit 1 (0x1800 : BitVec 64) {}))
        ↔ sampleListing.StartsBeyond 32 0x1800)
      ∧ ¬ ∀ F : WindowsQueryFrames .four .eight .eight,
          FollowsAddressRule 32
            [(sampleInfo.baseAddress, sampleInfo.baseAddress + sampleInfo.regionSize)] 0x1800
            F.Covers
            (windowsQueryEcIn F sampleWindowsMemory sampleInfo 1 (0x1800 : BitVec 64) {}) :=
  narrowQuery_addressRule_iff sampleProcess sampleUninit sampleWindowsMemory sampleInfo 1
    sampleListing sampleInfo 0x1800 {} rfl (by decide) rfl

/-- In the first mapping the numbers are right, but a byte behind the target of the
    lower bound is cleared; above the last mapping a region is returned that does not
    contain the address, and Windows ends the program. -/
theorem narrowQuery_sample :
    ((queryEcIn sampleQueryFrames sampleProcess sampleUninit 1 (0x1800 : BitVec 64) {}).run
          (fun _ => 0xFF)).2 4 = 0
      ∧ ¬ sampleQueryFrames.Covers 4
      ∧ (¬ ∀ F : QueryFrames .four .eight, FollowsAddressRule 32 sampleListing.bounds 0x1800
          F.Covers (queryEcIn F sampleProcess sampleUninit 1 (0x1800 : BitVec 64) {}))
      ∧ queryEc 32 sampleProcess sampleUninit 1 (0x100000000 : BitVec 64) {}
        = .ok (BasicRegion.free 0x9000 0xffffffff, {})
      ∧ ¬ AddressRule 32 sampleListing.bounds 0x100000000
        (queryEc 32 sampleProcess sampleUninit 1 (0x100000000 : BitVec 64) {})
      ∧ windowsQueryEc 32 sampleWindowsMemory sampleInfo 1 (0x100000000 : BitVec 64) {}
        = .error .terminate := by
  have hopen : sampleProcess.openFile (mapsPath 1) = some (mapsText sampleListing.lines) := rfl
  have hne : sampleListing.lines ≠ [] := by decide
  have hleaves := queryEcIn_leaves (L := sampleListing) hopen hne sampleQueryFrames sampleUninit
    (a := 0x1800) (by decide) {} (i := 4) (by decide) (by decide) (by decide) (by decide)
  refine ⟨hleaves _, by decide, ?_, ?_, ?_, ?_⟩
  · rw [queryEcIn_addressRule_iff hopen hne sampleUninit {}]
    decide
  · rw [queryEc_open hopen, addressCast_self]
    show (queryImpl 32 _ _ _).map _ = _
    rw [queryImpl_castBounds hne]
    rfl
  · rw [queryEc_addressRule_iff (by decide) hopen hne sampleUninit {}]
    decide
  · rw [windowsQueryEc_64]
    rfl

end VmUtils
