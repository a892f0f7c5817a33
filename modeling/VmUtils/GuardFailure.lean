import VmUtils.GuardRestoration

/-! # Constructors that throw

    The range constructor changes the protection last and has no rollback: what
    a failing system call has changed stays changed.  On POSIX that is a run of
    pages from the page of `begin` on, on Windows nothing or, if only the
    instruction cache could not be flushed, every page that was asked for. -/

namespace VmUtils

open Overlay Pages

variable {ps : PageSize} {s s' : PageMap} {first last : BitVec 64} {prot : Protection} {ex : Exn}

/-- The `n` pages from the page of an address on. -/
def pagesFrom (ps : PageSize) (addr : BitVec 64) (n : Nat) : Set Nat :=
  Set.Ico (addr.toNat / ps.bytes) (addr.toNat / ps.bytes + n)

/-- What is assumed of a failing `mprotect`: it may have set a prefix of the
    requested pages. -/
structure MprotectStops (ps : PageSize) (os : Posix PageMap) : Prop where
  pageSize_eq : os.pageSize = BitVec.twoPow 64 ps.shift
  stops : ∀ addr len prot s e s', ps.bytes ∣ addr.toNat →
    os.mprotect addr len prot s = (some e, s') →
    ∃ n, pagesFrom ps addr n ⊆ requested ps addr len ∧ s' = setProt (pagesFrom ps addr n) prot s

/-- What is assumed of the Windows calls: `VirtualProtect` is all or nothing, and
    `FlushInstructionCache` changes no protection. -/
structure VirtualProtectSpec (ps : PageSize) (os : Windows PageMap) : Prop where
  sets : ∀ addr size prot s s', os.virtualProtect addr size prot s = (none, s') →
    s' = setProt (requested ps addr size) prot s
  fails : ∀ addr size prot s e s', os.virtualProtect addr size prot s = (some e, s') → s' = s
  flush : ∀ addr size s, (os.flushInstructionCache addr size s).2 = s

/-- Windows is asked for the pages of the range, if it is one. -/
theorem requested_sub (hle : first ≤ last) :
    requested ps first (last - first) = rangePages ps first last := by
  have hlen : first.toNat + (last - first).toNat = last.toNat := by bv_omega
  rw [requested, rangePages, hlen]

/-- A POSIX `protect` that throws has set a run of pages from `begin` on. -/
theorem MprotectStops.protect_error {os : Posix PageMap} (h : MprotectStops ps os)
    (hrun : (os.protect first last prot).run s = (.error ex, s')) :
    ∃ errno n, ex = .systemError { value := errno } "mprotect() failed"
      ∧ s' = setProt (pagesFrom ps first n) prot.native s
      ∧ (first ≤ last → pagesFrom ps first n ⊆ rangePages ps first last) := by
  rw [Posix.protect_run] at hrun
  by_cases hne : first = last
  · rw [if_pos hne] at hrun
    exact nomatch (Prod.mk.inj hrun).1
  · rw [if_neg hne] at hrun
    rcases hcall : os.mprotect (first &&& -os.pageSize) (last - (first &&& -os.pageSize))
      prot.native s with ⟨_ | errno, s''⟩
    · rw [hcall] at hrun
      exact nomatch (Prod.mk.inj hrun).1
    · rw [hcall] at hrun
      obtain ⟨hex, hs⟩ := Prod.mk.inj hrun
      obtain ⟨n, hsub, hn⟩ := h.stops _ _ _ _ _ _ (roundDown_dvd h.pageSize_eq first) hcall
      -- rounding down stays on the page of `begin`
      have hpage : pagesFrom ps (first &&& -os.pageSize) n = pagesFrom ps first n := by
        rw [pagesFrom, roundDown_toNat h.pageSize_eq, Nat.mul_div_cancel _ ps.pos_bytes]
        rfl
      rw [hpage] at hsub hn
      refine ⟨errno, n, (Except.error.inj hex).symm, hs.symm.trans hn, ?_⟩
      intro hle
      rw [requested_roundDown h.pageSize_eq hne (Or.inl hle)] at hsub
      exact hsub

/-- A Windows `protect` that throws has changed nothing, or all it asked for. -/
theorem VirtualProtectSpec.protect_error {os : Windows PageMap} (h : VirtualProtectSpec ps os)
    (hrun : (os.protect first last prot).run s = (.error ex, s')) :
    (∃ code, ex = .systemError { value := code } "VirtualProtect() failed" ∧ s' = s)
      ∨ ∃ code, ex = .systemError { value := code } "FlushInstructionCache() failed"
        ∧ s' = setProt (requested ps first (last - first)) prot.native s := by
  rw [Windows.protect_run] at hrun
  by_cases hne : first = last
  · rw [if_pos hne] at hrun
    exact nomatch (Prod.mk.inj hrun).1
  · rw [if_neg hne] at hrun
    rcases hcall : os.virtualProtect first (last - first) prot.native s with ⟨_ | code, s₁⟩
    · have hset := h.sets _ _ _ _ _ hcall
      have hflush := h.flush first (last - first) s₁
      rw [hcall] at hrun
      rcases hfl : os.flushInstructionCache first (last - first) s₁ with ⟨_ | code, s₂⟩
      · have hrun' : flushOutcome (os.flushInstructionCache first (last - first) s₁)
          = (.error ex, s') := hrun
        rw [hfl] at hrun'
        exact nomatch (Prod.mk.inj hrun').1
      · have hrun' : flushOutcome (os.flushInstructionCache first (last - first) s₁)
          = (.error ex, s') := hrun
        rw [hfl] at hrun' hflush
        obtain ⟨hex, hs⟩ := Prod.mk.inj hrun'
        refine Or.inr ⟨code, (Except.error.inj hex).symm, ?_⟩
        exact hs.symm.trans (Eq.trans hflush hset)
    · rw [hcall] at hrun
      obtain ⟨hex, hs⟩ := Prod.mk.inj hrun
      refine Or.inl ⟨code, (Except.error.inj hex).symm, ?_⟩
      exact hs.symm.trans (h.fails _ _ _ _ _ _ hcall)

/-- A constructor throws because its query or its `protect` does. -/
theorem ofRange_eq_error {P : Platform PageMap} {Q : Queries} {new : Protection}
    (h : (ProtectionGuard.ofRange P Q first last new).run s = (.error ex, s')) :
    (Q.queryRange first last = .error ex ∧ s' = s)
      ∨ (P.protect first last new).run s = (.error ex, s') := by
  rcases bind_run_eq_error h with hquery | ⟨regions, s₁, hquery, hrest⟩
  · have hquery' : (Q.queryRange first last, s) = (.error ex, s') := hquery
    obtain ⟨hq, hs⟩ := Prod.mk.inj hquery'
    exact Or.inl ⟨hq, hs.symm⟩
  · have hquery' : (Q.queryRange first last, s) = (.ok regions, s₁) := hquery
    obtain rfl := (Prod.mk.inj hquery').2
    rcases bind_run_eq_error hrest with hprotect | ⟨⟨⟩, s₂, -, hlast⟩
    · exact Or.inr hprotect
    · exact nomatch (Prod.mk.inj (show (Except.ok _, s₂) = (Except.error ex, s') from hlast)).1

/-- **What a range constructor that throws leaves behind**, for any answer of its
    query and any outcome of the system calls. -/
theorem ofRange_throws (ps : PageSize) (posix : Posix PageMap) (windows : Windows PageMap)
    (Q : Queries) (s s' : PageMap) (first last : BitVec 64) (new : Protection) (ex : Exn)
    (hposix : MprotectStops ps posix) (hwindows : VirtualProtectSpec ps windows) :
    ((ProtectionGuard.ofRange posix.platform Q first last new).run s = (.error ex, s') →
        (Q.queryRange first last = .error ex ∧ s' = s)
          ∨ ∃ errno n, ex = .systemError { value := errno } "mprotect() failed"
            ∧ s' = setProt (pagesFrom ps first n) new.native s
            ∧ (first ≤ last → pagesFrom ps first n ⊆ rangePages ps first last))
      ∧ ((ProtectionGuard.ofRange windows.platform Q first last new).run s = (.error ex, s') →
        (Q.queryRange first last = .error ex ∧ s' = s)
          ∨ (∃ code, ex = .systemError { value := code } "VirtualProtect() failed" ∧ s' = s)
          ∨ ∃ code, ex = .systemError { value := code } "FlushInstructionCache() failed"
            ∧ s' = setProt (requested ps first (last - first)) new.native s
            ∧ (first ≤ last →
              requested ps first (last - first) = rangePages ps first last)) := by
  constructor
  · intro h
    rcases ofRange_eq_error h with hquery | hprotect
    · exact Or.inl hquery
    · exact Or.inr (hposix.protect_error hprotect)
  · intro h
    rcases ofRange_eq_error h with hquery | hprotect
    · exact Or.inl hquery
    · rcases hwindows.protect_error hprotect with hfail | ⟨code, hex, hs⟩
      · exact Or.inr (Or.inl hfail)
      · exact Or.inr (Or.inr ⟨code, hex, hs, requested_sub⟩)

/-! ## Systems that fail -/

theorem walkingPosix_stops (ps : PageSize) : MprotectStops ps (walkingPosix ps) := by
  refine ⟨rfl, ?_⟩
  intro addr len prot s e s' hdvd hcall
  by_cases hc : ps.bytes ∣ addr.toNat ∧ prot.toNat < 8
  · obtain ⟨k, hk, hset, -⟩ := mprotectPages_spec prot
      ((len.toNat + ps.bytes - 1) / ps.bytes) (addr.toNat / ps.bytes) s
    have hcall' : mprotectPages prot ((len.toNat + ps.bytes - 1) / ps.bytes)
        (addr.toNat / ps.bytes) s = (some e, s') := (if_pos hc).symm.trans hcall
    rw [hcall'] at hset
    refine ⟨k, ?_, hset⟩
    rw [requested_eq hdvd]
    exact Set.Ico_subset_Ico_right (Nat.add_le_add_left hk _)
  · have hcall' : (some 22, s) = ((some e, s') : Option Int × PageMap) :=
      (if_neg hc).symm.trans hcall
    have hempty : pagesFrom ps addr 0 = ∅ := by
      rw [pagesFrom, Nat.add_zero, Set.Ico_self]
    refine ⟨0, ?_, ?_⟩
    · rw [hempty]
      exact Set.empty_subset _
    · rw [hempty, setProt, put_empty]
      exact (Prod.mk.inj hcall').2.symm

/-- A Windows system whose `VirtualProtect` refuses empty ranges and ranges with
    an unmapped page, and whose cache flush answers as given. -/
def walkingWindows (ps : PageSize) (flush : Option Int) : Windows PageMap where
  virtualProtect := fun addr size prot s =>
    if size = 0 then (some 87, s)
    else
      match mprotectPages prot ((addr.toNat + size.toNat + ps.bytes - 1) / ps.bytes
          - addr.toNat / ps.bytes) (addr.toNat / ps.bytes) s with
      | (none, s') => (none, s')
      | (some _, _) => (some 487, s)
  flushInstructionCache := fun _ _ s => (flush, s)
  pageSize := BitVec.twoPow 64 ps.shift

theorem walkingWindows_spec (ps : PageSize) (flush : Option Int) :
    VirtualProtectSpec ps (walkingWindows ps flush) := by
  have hpos := ps.pos_bytes
  refine ⟨?_, ?_, fun _ _ _ => rfl⟩
  · intro addr size prot s s' hcall
    by_cases hsize : size = 0
    · have hcall' : (some 87, s) = ((none, s') : Option Int × PageMap) :=
        (if_pos hsize).symm.trans hcall
      exact absurd (Prod.mk.inj hcall').1 (Option.some_ne_none _)
    · have hcall' := (if_neg hsize).symm.trans hcall
      obtain ⟨k, -, hset, -, hall⟩ := mprotectPages_spec prot
        ((addr.toNat + size.toNat + ps.bytes - 1) / ps.bytes - addr.toNat / ps.bytes)
        (addr.toNat / ps.bytes) s
      rcases hwalk : mprotectPages prot ((addr.toNat + size.toNat + ps.bytes - 1) / ps.bytes
        - addr.toNat / ps.bytes) (addr.toNat / ps.bytes) s with ⟨_ | e, s₁⟩
      · rw [hwalk] at hcall' hset hall
        obtain rfl : s₁ = s' := (Prod.mk.inj hcall').2
        refine Eq.trans hset ?_
        congr 1
        ext p
        have hsize' : 0 < size.toNat := by bv_omega
        have hmono : addr.toNat / ps.bytes
            ≤ (addr.toNat + size.toNat + ps.bytes - 1) / ps.bytes :=
          Nat.div_le_div_right (by omega)
        have hceil : p * ps.bytes < addr.toNat + size.toNat
            ↔ p < (addr.toNat + size.toNat + ps.bytes - 1) / ps.bytes := by
          rw [← Nat.succ_le_iff (m := p), Nat.le_div_iff_mul_le hpos, Nat.succ_mul]
          omega
        rw [requested, mem_pagesMeeting hpos, hceil, Set.mem_Ico, hall rfl]
        omega
      · rw [hwalk] at hcall'
        exact absurd (Prod.mk.inj hcall').1 (Option.some_ne_none _)
  · intro addr size prot s e s' hcall
    by_cases hsize : size = 0
    · have hcall' : (some 87, s) = ((some e, s') : Option Int × PageMap) :=
        (if_pos hsize).symm.trans hcall
      exact (Prod.mk.inj hcall').2.symm
    · have hcall' := (if_neg hsize).symm.trans hcall
      rcases hwalk : mprotectPages prot ((addr.toNat + size.toNat + ps.bytes - 1) / ps.bytes
        - addr.toNat / ps.bytes) (addr.toNat / ps.bytes) s with ⟨_ | e', s₁⟩
      · rw [hwalk] at hcall'
        exact absurd (Prod.mk.inj hcall').1.symm (Option.some_ne_none _)
      · rw [hwalk] at hcall'
        exact (Prod.mk.inj hcall').2.symm

/-- The range constructor, its query answered. -/
theorem ofRange_protect_error {P : Platform PageMap} {Q : Queries} {new : Protection}
    {regions : List (BasicRegion 64)} (hquery : Q.queryRange first last = .ok regions)
    (h : (P.protect first last new).run s = (.error ex, s')) :
    (ProtectionGuard.ofRange P Q first last new).run s = (.error ex, s') := by
  have hlift : (liftM (Q.queryRange first last) : OsM PageMap _).run s = (.ok regions, s) := by
    rw [hquery]
    rfl
  rw [ProtectionGuard.ofRange]
  refine (bind_run_ok hlift _).trans ?_
  exact bind_run_error h _

/-- A range whose second page is not mapped: the first one is changed. -/
theorem sample_mprotect_fails :
    (ProtectionGuard.ofRange (walkingPosix samplePageSize).platform
        (linuxQueries sampleProcess sampleUninit) (0x3000 : BitVec 64) 0x5000 ⟨7⟩).run sampleState
      = (.error (.systemError { value := 12 } "mprotect() failed"),
        Function.update sampleState 3 (some 7)) := by
  have hopen : sampleProcess.openFile (mapsPath 1) = some sampleListing.text := rfl
  have hprotect : ((walkingPosix samplePageSize).protect (0x3000 : BitVec 64) 0x5000 ⟨7⟩).run
      sampleState = (.error (.systemError { value := 12 } "mprotect() failed"),
        Function.update sampleState 3 (some 7)) := by
    rw [Posix.protect_run]
    rfl
  have hquery := queryRange_listing hopen sampleUninit 0x3000 0x5000
  rw [if_pos] at hquery
  · exact ofRange_protect_error hquery hprotect
  · exact ⟨.anonymous 0x8000 0x9000 true false true false, by simp [sampleListing], by decide⟩

/-- Two pages with `PAGE_READWRITE`, as a Windows system holds them. -/
def sampleWindowsState : PageMap := fun q => if q = 2 ∨ q = 3 then some 0x04 else none

/-- Queries that find those two pages. -/
def sampleWindowsQueries : Queries where
  query := fun _ => .ok (.mapped 0x2000 0x4000 ⟨0x04⟩ false)
  queryRange := fun _ _ => .ok [.mapped 0x2000 0x4000 ⟨0x04⟩ false]

/-- Those two pages with `PAGE_EXECUTE_READWRITE`. -/
def sampleWindowsChanged : PageMap :=
  Function.update (Function.update sampleWindowsState 2 (some 0x40)) 3 (some 0x40)

/-- A cache flush that fails behind a change of two pages. -/
theorem sample_flush_fails :
    (ProtectionGuard.ofRange (walkingWindows samplePageSize (some 5)).platform
        sampleWindowsQueries (0x2000 : BitVec 64) 0x4000 ⟨0x40⟩).run sampleWindowsState
      = (.error (.systemError { value := 5 } "FlushInstructionCache() failed"),
        sampleWindowsChanged) := by
  have hprotect : ((walkingWindows samplePageSize (some 5)).protect (0x2000 : BitVec 64) 0x4000
      ⟨0x40⟩).run sampleWindowsState
      = (.error (.systemError { value := 5 } "FlushInstructionCache() failed"),
        sampleWindowsChanged) := by
    rw [Windows.protect_run]
    rfl
  exact ofRange_protect_error rfl hprotect

theorem ofRange_throws_sample :
    (((linuxQueries sampleProcess sampleUninit).queryRange (0x3000 : BitVec 64) 0x5000
            = .error (.systemError { value := 12 } "mprotect() failed")
          ∧ Function.update sampleState 3 (some 7) = sampleState)
        ∨ ∃ errno n, (.systemError { value := 12 } "mprotect() failed" : Exn)
            = .systemError { value := errno } "mprotect() failed"
          ∧ Function.update sampleState 3 (some 7)
            = setProt (pagesFrom samplePageSize 0x3000 n) 7 sampleState
          ∧ ((0x3000 : BitVec 64) ≤ 0x5000 →
            pagesFrom samplePageSize 0x3000 n ⊆ rangePages samplePageSize 0x3000 0x5000))
      ∧ ((sampleWindowsQueries.queryRange (0x2000 : BitVec 64) 0x4000
            = .error (.systemError { value := 5 } "FlushInstructionCache() failed")
          ∧ sampleWindowsChanged = sampleWindowsState)
        ∨ (∃ code, (.systemError { value := 5 } "FlushInstructionCache() failed" : Exn)
            = .systemError { value := code } "VirtualProtect() failed"
          ∧ sampleWindowsChanged = sampleWindowsState)
        ∨ ∃ code, (.systemError { value := 5 } "FlushInstructionCache() failed" : Exn)
            = .systemError { value := code } "FlushInstructionCache() failed"
          ∧ sampleWindowsChanged
            = setProt (requested samplePageSize 0x2000 (0x4000 - 0x2000)) 0x40 sampleWindowsState
          ∧ ((0x2000 : BitVec 64) ≤ 0x4000 →
            requested samplePageSize 0x2000 (0x4000 - 0x2000)
              = rangePages samplePageSize 0x2000 0x4000)) :=
  ⟨(ofRange_throws samplePageSize (walkingPosix samplePageSize)
      (walkingWindows samplePageSize none) (linuxQueries sampleProcess sampleUninit) sampleState _
      0x3000 0x5000 ⟨7⟩ _ (walkingPosix_stops _) (walkingWindows_spec _ _)).1
      sample_mprotect_fails,
    (ofRange_throws samplePageSize (walkingPosix samplePageSize)
      (walkingWindows samplePageSize (some 5)) sampleWindowsQueries sampleWindowsState _ 0x2000
      0x4000 ⟨0x40⟩ _ (walkingPosix_stops _) (walkingWindows_spec _ _)).2 sample_flush_fails⟩

/-- The state behind a constructor that threw is not the one before it. -/
theorem ofRange_sample_no_rollback :
    (MprotectStops samplePageSize (walkingPosix samplePageSize)
        ∧ ∃ ex s', (ProtectionGuard.ofRange (walkingPosix samplePageSize).platform
          (linuxQueries sampleProcess sampleUninit) (0x3000 : BitVec 64) 0x5000 ⟨7⟩).run sampleState
          = (.error ex, s') ∧ s' ≠ sampleState)
      ∧ VirtualProtectSpec samplePageSize (walkingWindows samplePageSize (some 5))
      ∧ ∃ ex s', (ProtectionGuard.ofRange (walkingWindows samplePageSize (some 5)).platform
          sampleWindowsQueries (0x2000 : BitVec 64) 0x4000 ⟨0x40⟩).run sampleWindowsState
          = (.error ex, s') ∧ s' ≠ sampleWindowsState := by
  refine ⟨⟨walkingPosix_stops _, _, _, sample_mprotect_fails, ?_⟩,
    walkingWindows_spec _ _, _, _, sample_flush_fails, ?_⟩
  · intro h
    exact absurd (congrFun h 3) (by decide)
  · intro h
    exact absurd (congrFun h 3) (by decide)

end VmUtils
