import VmUtils.RangeGuard

/-! # What a guard restores

    The range guard: the destructor puts every page back, `restore` does so
    exactly if the lines that meet inside the range have equal protections.  The
    single-page guard puts its page back exactly if no line with another
    protection ends at the address. -/

namespace VmUtils

open Overlay Pages

variable {ps : PageSize} {os : Posix PageMap} {proc : Process} {u : Uninit} {L : Listing}
  {s s' : PageMap} {first last : BitVec 64} {new : Protection} {g : ProtectionGuard}

/-! ## The range constructor on Linux -/

/-- A constructor that returns has saved the entries of the range and has
    changed the protection. -/
theorem ofRange_eq_ok (hopen : proc.openFile (mapsPath proc.getpid) = some L.text)
    (h : (ProtectionGuard.ofRange os.platform (linuxQueries proc u) first last new).run s
      = (.ok g, s')) :
    g = ⟨rangeEntries L first last⟩ ∧ (os.protect first last new).run s = (.ok (), s') := by
  obtain ⟨regions, s₁, hquery, hrest⟩ := bind_run_eq_ok h
  obtain ⟨⟨⟩, s₂, hprotect, hlast⟩ := bind_run_eq_ok hrest
  have hquery' : (queryRange 64 proc u proc.getpid first last, s) = (.ok regions, s₁) := hquery
  rw [queryRange_listing hopen] at hquery'
  obtain ⟨hr, rfl⟩ := Prod.mk.inj hquery'
  have hlast' : ((.ok ⟨regions.map (savedEntry first last)⟩, s₂)
      : Except Exn ProtectionGuard × PageMap) = (.ok g, s') := hlast
  obtain ⟨hg, rfl⟩ := Prod.mk.inj hlast'
  refine ⟨?_, hprotect⟩
  by_cases habove : ∃ m ∈ L.lines, last < m.beginAddr
  · rw [if_pos habove] at hr
    rw [← Except.ok.inj hg, ← Except.ok.inj hr]
    rfl
  · rw [if_neg habove] at hr
    exact nomatch hr

/-- Below the last line the constructor returns. -/
theorem ofRange_run_ok (hos : MprotectSpec ps os)
    (hopen : proc.openFile (mapsPath proc.getpid) = some L.text) (hle : first ≤ last)
    (hm : RangeMapped ps s first last) (habove : ∃ m ∈ L.lines, last < m.beginAddr)
    (hnew : new.IsRwx) :
    (ProtectionGuard.ofRange os.platform (linuxQueries proc u) first last new).run s
      = (.ok ⟨rangeEntries L first last⟩, setProt (rangePages ps first last) new.native s) := by
  have hquery : (liftM (queryRange 64 proc u proc.getpid first last) : OsM PageMap _).run s
      = (.ok (withGaps ((selected first last L.lines).map MapsLine.region)), s) := by
    rw [queryRange_listing hopen, if_pos habove]
    rfl
  have hprotect : (os.platform.protect first last new).run s
      = (.ok (), setProt (rangePages ps first last) new.native s) :=
    hos.protect_ok (Or.inl hle) hnew hm
  rw [ProtectionGuard.ofRange]
  refine (bind_run_ok hquery _).trans ?_
  exact bind_run_ok hprotect _

/-- The state behind the constructor. -/
theorem ofRange_state (hos : MprotectSpec ps os)
    (hopen : proc.openFile (mapsPath proc.getpid) = some L.text) (hle : first ≤ last)
    (hm : RangeMapped ps s first last)
    (h : (ProtectionGuard.ofRange os.platform (linuxQueries proc u) first last new).run s
      = (.ok g, s')) :
    s' = setProt (rangePages ps first last) new.native s :=
  hos.protect_sets (Or.inl hle) hm (ofRange_eq_ok hopen h).2

/-- Whether an entry can be replayed depends on which pages are mapped. -/
theorem Replayable.congr {e : OldProtStorage} (h : Replayable ps s e)
    (hs : ∀ q, (s' q).isSome = (s q).isSome) : Replayable ps s' e := by
  obtain ⟨hb, hp, hm⟩ := h
  refine ⟨hb, hp, ?_⟩
  intro q hq
  rw [hs q]
  exact hm q hq

/-- In the state behind the constructor, and in every other one with the same
    pages mapped, the entries can be replayed. -/
theorem rangeEntries_replayable_after (hd : Describes ps L s) (hm : RangeMapped ps s first last)
    (hle : first ≤ last) (hs : ∀ q, (s' q).isSome = (s q).isSome) :
    ∀ e ∈ rangeEntries L first last, Replayable ps s' e := by
  intro e he
  exact (rangeEntries_replayable hd hm hle e he).congr hs

/-! ## `restore` of a range guard -/

/-- `restore` and `restore(ec)` behind a constructor that has changed the
    protection of the range. -/
theorem restore_rangeEntries_iff (hos : MprotectSpec ps os) (hd : Describes ps L s)
    (hm : RangeMapped ps s first last) (hle : first ≤ last) (prot : NativeProtection)
    {ec : ErrorCode} (hec : ec.isSet = false) :
    ((ProtectionGuard.restore os.platform ⟨rangeEntries L first last⟩
        (setProt (rangePages ps first last) prot s)).2 = s ↔ SeamsMatch L first last)
      ∧ ((ProtectionGuard.restoreEc os.platform ⟨rangeEntries L first last⟩ ec
        (setProt (rangePages ps first last) prot s)).2 = s ↔ SeamsMatch L first last) := by
  have hreplay := rangeEntries_replayable_after hd hm hle (setProt_isSome hm prot)
  have houtside : ∀ q, q ∉ rangePages ps first last →
      setProt (rangePages ps first last) prot s q = s q :=
    fun q hq => put_not_mem hq _ _
  rw [restore_run hos _ hreplay, restoreEc_run hos _ hreplay hec]
  exact ⟨replay_reverse_rangeEntries_iff hd hm houtside,
    replay_reverse_rangeEntries_iff hd hm houtside⟩

/-- **`restore` after `protection_guard(begin, end, new)`** puts every page back
    exactly if lines that meet inside the range have equal protections. -/
theorem restore_rangeGuard_iff (ps : PageSize) (os : Posix PageMap) (proc : Process) (u : Uninit)
    (L : Listing) (s s' : PageMap) (first last : BitVec 64) (new : Protection)
    (g : ProtectionGuard) (ec : ErrorCode) (hos : MprotectSpec ps os) (hd : Describes ps L s)
    (hopen : proc.openFile (mapsPath proc.getpid) = some L.text) (hle : first ≤ last)
    (hm : RangeMapped ps s first last)
    (hctor : (ProtectionGuard.ofRange os.platform (linuxQueries proc u) first last new).run s
      = (.ok g, s'))
    (hec : ec.isSet = false) :
    ((g.restore os.platform s').2 = s ↔ SeamsMatch L first last)
      ∧ ((g.restoreEc os.platform ec s').2 = s ↔ SeamsMatch L first last) := by
  rw [ofRange_state hos hopen hle hm hctor, (ofRange_eq_ok hopen hctor).1]
  exact restore_rangeEntries_iff hos hd hm hle new.native hec

/-- The pages between `0x1000` and `0x4000` of the sample are mapped. -/
theorem sampleRange_mapped {first last : BitVec 64} (hfirst : 0x1000 ≤ first)
    (hlast : last ≤ 0x4000) : RangeMapped samplePageSize sampleState first last := by
  rintro q ⟨x, hlo, hhi, rfl⟩
  have hlo' : 0x1000 ≤ x := Nat.le_trans hfirst hlo
  have hhi' : x < 0x4000 := Nat.lt_of_lt_of_le hhi hlast
  show (sampleState (x / 4096)).isSome
  obtain hq | hq | hq : x / 4096 = 1 ∨ x / 4096 = 2 ∨ x / 4096 = 3 := by omega
  · rw [hq]
    rfl
  · rw [hq]
    rfl
  · rw [hq]
    rfl

/-- The constructor of a guard on pages of the sample. -/
theorem sample_ofRange {first last : BitVec 64} (hfirst : 0x1000 ≤ first) (hle : first ≤ last)
    (hlast : last ≤ 0x4000) {new : Protection} (hnew : new.IsRwx) :
    (ProtectionGuard.ofRange (walkingPosix samplePageSize).platform
        (linuxQueries sampleProcess sampleUninit) first last new).run sampleState
      = (.ok ⟨rangeEntries sampleListing first last⟩,
        setProt (rangePages samplePageSize first last) new.native sampleState) := by
  refine ofRange_run_ok (walkingPosix_spec _) rfl hle (sampleRange_mapped hfirst hlast) ?_ hnew
  refine ⟨.anonymous 0x8000 0x9000 true false true false, by simp [sampleListing], ?_⟩
  exact Nat.lt_of_le_of_lt hlast (by decide)

theorem restore_rangeGuard_iff_sample :
    ((ProtectionGuard.restore (walkingPosix samplePageSize).platform
          ⟨rangeEntries sampleListing 0x2000 0x4000⟩
          (setProt (rangePages samplePageSize 0x2000 0x4000) 7 sampleState)).2 = sampleState
        ↔ SeamsMatch sampleListing 0x2000 0x4000)
      ∧ ((ProtectionGuard.restoreEc (walkingPosix samplePageSize).platform
          ⟨rangeEntries sampleListing 0x2000 0x4000⟩ {}
          (setProt (rangePages samplePageSize 0x2000 0x4000) 7 sampleState)).2 = sampleState
        ↔ SeamsMatch sampleListing 0x2000 0x4000) :=
  restore_rangeGuard_iff samplePageSize (walkingPosix samplePageSize) sampleProcess sampleUninit
    sampleListing sampleState _ 0x2000 0x4000 ⟨7⟩ _ {} (walkingPosix_spec _)
    sampleState_described rfl (by decide) (sampleRange_mapped (by decide) (by decide))
    (sample_ofRange (by decide) (by decide) (by decide) (by decide)) rfl

/-- A guard across the seam at `0x2000`, where `r--` meets `rw-`. -/
theorem restore_sample_seam :
    MprotectSpec samplePageSize (walkingPosix samplePageSize)
      ∧ Describes samplePageSize sampleListing sampleState
      ∧ RangeMapped samplePageSize sampleState 0x1000 0x4000
      ∧ ∃ g s', (ProtectionGuard.ofRange (walkingPosix samplePageSize).platform
          (linuxQueries sampleProcess sampleUninit) (0x1000 : BitVec 64) 0x4000 ⟨7⟩).run sampleState
          = (.ok g, s')
        ∧ (g.restore (walkingPosix samplePageSize).platform s').2 ≠ sampleState
        ∧ (g.restoreEc (walkingPosix samplePageSize).platform {} s').2 ≠ sampleState := by
  have hseam : ¬ SeamsMatch sampleListing 0x1000 0x4000 := by
    intro h
    have hprot := h (.anonymous 0x1000 0x2000 true false false false) (List.mem_cons_self ..)
      (.anonymous 0x2000 0x4000 true true false false)
      (List.mem_cons_of_mem _ (List.mem_cons_self ..)) rfl (by decide) (by decide)
    exact absurd hprot (by decide)
  have hm : RangeMapped samplePageSize sampleState 0x1000 0x4000 :=
    sampleRange_mapped (by decide) (by decide)
  have hec : ({} : ErrorCode).isSet = false := rfl
  obtain ⟨hrestore, hrestoreEc⟩ := restore_rangeEntries_iff (walkingPosix_spec samplePageSize)
    sampleState_described hm (by decide) 7 hec
  refine ⟨walkingPosix_spec _, sampleState_described, hm, _, _,
    sample_ofRange (by decide) (by decide) (by decide) (by decide), ?_, ?_⟩
  · exact fun h => hseam (hrestore.mp h)
  · exact fun h => hseam (hrestoreEc.mp h)

/-! ## The single-page guard -/

/-- The page an address lies on, as the guard and `protect` compute it. -/
def fixedAddress (os : Posix PageMap) (address : BitVec 64) : BitVec 64 :=
  address &&& -os.pageSize

/-- The two mask expressions agree. -/
theorem fixedAddress_eq (os : Posix PageMap) (address : BitVec 64) :
    address &&& ~~~(os.pageSize - 1) = fixedAddress os address := by
  rw [fixedAddress]
  exact congrArg _ (not_sub_one os.pageSize)

/-- The bytes from the rounded address on meet the page of the address only. -/
theorem rangePages_fixedAddress (hos : MprotectSpec ps os) (address : BitVec 64) :
    rangePages ps (fixedAddress os address) (fixedAddress os address + 1)
      = {address.toNat / ps.bytes} := by
  have hpos := ps.pos_bytes
  have hround : (fixedAddress os address).toNat = address.toNat / ps.bytes * ps.bytes :=
    roundDown_toNat hos.pageSize_eq address
  have htop := ps.succ_lt (roundDown_dvd hos.pageSize_eq address)
  have hsucc : (fixedAddress os address + 1).toNat = address.toNat / ps.bytes * ps.bytes + 1 := by
    rw [← hround]
    show (fixedAddress os address + 1).toNat = (fixedAddress os address).toNat + 1
    have htop' : (fixedAddress os address).toNat + 1 < 2 ^ 64 := htop
    bv_omega
  ext q
  rw [rangePages, hround, hsucc]
  constructor
  · rintro ⟨x, hlo, hhi, rfl⟩
    have hx : x = address.toNat / ps.bytes * ps.bytes := by omega
    rw [hx, Nat.mul_div_cancel _ hpos]
    rfl
  · rintro rfl
    exact ⟨_, Nat.le_refl _, Nat.lt_succ_self _, Nat.mul_div_cancel _ hpos⟩

/-- The entry saved by the single-page constructor. -/
def pageEntry (os : Posix PageMap) (L : Listing) (address : BitVec 64) : OldProtStorage where
  beginAddr := fixedAddress os address
  endAddr := fixedAddress os address + 1
  prot := (scanRegion address 0 L.lines).protection.native

theorem pageEntry_bounds (hos : MprotectSpec ps os) (address : BitVec 64) :
    SaneBounds ps (fixedAddress os address) (fixedAddress os address + 1) := by
  refine Or.inl ?_
  have htop : (fixedAddress os address).toNat + 1 < 2 ^ 64 :=
    ps.succ_lt (roundDown_dvd hos.pageSize_eq address)
  bv_omega

/-- An address on a line: the scan answers with that line, or with the line that
    ends there. -/
theorem scanRegion_mapped {address : BitVec 64} {l : MapsLine} (hl : l ∈ L.lines)
    (hc : l.Contains address) :
    ∃ h ∈ L.lines, scanRegion address 0 L.lines = h.region
      ∧ ((h = l ∧ ∀ m ∈ L.lines, m.endAddr ≠ address) ∨ h.endAddr = address) := by
  by_cases hend : ∃ m ∈ L.lines, m.endAddr = address
  · obtain ⟨m, hm, rfl⟩ := hend
    exact ⟨m, hm, scanRegion_at_end 0 L.ascending hm, Or.inr rfl⟩
  · have hne : ∀ m ∈ L.lines, m.endAddr ≠ address := fun m hm h => hend ⟨m, hm, h⟩
    have hzero : ∀ m ∈ L.lines, (0 : BitVec 64) ≤ m.beginAddr := fun m _ => Nat.zero_le _
    exact ⟨l, hl, (scanRegion_spec L.ascending hzero hne).1 l hl hc, Or.inl ⟨rfl, hne⟩⟩

/-- The protection saved is a combination of read, write and execute. -/
theorem pageEntry_rwx {address : BitVec 64} {l : MapsLine} (hl : l ∈ L.lines)
    (hc : l.Contains address) : (pageEntry os L address).prot < 8 := by
  obtain ⟨h, hh, hscan, -⟩ := scanRegion_mapped hl hc
  show (scanRegion address 0 L.lines).protection.native < 8
  rw [hscan]
  show (transformProt h.perms).native < 8
  rw [transformProt_eq (L.kernelPerms h hh)]
  exact protection_isRwx h

/-- The query of the constructor on a mapped address. -/
theorem queryLocal_listing {address : BitVec 64}
    (hopen : proc.openFile (mapsPath proc.getpid) = some L.text) {l : MapsLine} (hl : l ∈ L.lines)
    (hc : l.Contains address) :
    queryLocal 64 proc u address = .ok (scanRegion address 0 L.lines) := by
  rw [queryLocal, addressCast_self]
  refine (query_listing hopen u address).trans (if_pos ⟨l, hl, Or.inr ?_⟩)
  have := hc.2
  bv_omega

theorem platform_fixedAddress (os : Posix PageMap) (address : BitVec 64) :
    os.platform.fixedAddress address = fixedAddress os address :=
  posix_fixedAddress os address

/-- The single-page constructor on a mapped address returns if its `protect`
    does. -/
theorem ofPage_run {address : BitVec 64}
    (hopen : proc.openFile (mapsPath proc.getpid) = some L.text) {l : MapsLine} (hl : l ∈ L.lines)
    (hc : l.Contains address)
    (h : (os.protect (fixedAddress os address) (fixedAddress os address + 1) new).run s
      = (.ok (), s')) :
    (ProtectionGuard.ofPage os.platform (linuxQueries proc u) address new).run s
      = (.ok ⟨[pageEntry os L address]⟩, s') := by
  have hquery : (liftM (queryLocal 64 proc u address) : OsM PageMap _).run s
      = (.ok (scanRegion address 0 L.lines), s) := by
    rw [queryLocal_listing hopen hl hc]
    rfl
  have hprotect : (os.platform.protectPage address new).run s = (.ok (), s') := by
    rw [Platform.protectPage, platform_fixedAddress]
    exact h
  have hentry : pageEntry os L address
      = ⟨addressCastUnchecked 64 address &&& ~~~(os.pageSize - 1),
        (addressCastUnchecked 64 address &&& ~~~(os.pageSize - 1)) + 1,
        (scanRegion address 0 L.lines).protection.native⟩ := by
    rw [addressCastUnchecked_self, fixedAddress_eq]
    rfl
  rw [ProtectionGuard.ofPage, hentry]
  refine (bind_run_ok hquery _).trans ?_
  exact bind_run_ok hprotect _

/-- A single-page constructor that returns has saved one entry. -/
theorem ofPage_eq_ok {address : BitVec 64}
    (hopen : proc.openFile (mapsPath proc.getpid) = some L.text) {l : MapsLine} (hl : l ∈ L.lines)
    (hc : l.Contains address)
    (h : (ProtectionGuard.ofPage os.platform (linuxQueries proc u) address new).run s
      = (.ok g, s')) :
    g = ⟨[pageEntry os L address]⟩
      ∧ (os.protect (fixedAddress os address) (fixedAddress os address + 1) new).run s
        = (.ok (), s') := by
  obtain ⟨old, s₁, hquery, hrest⟩ := bind_run_eq_ok h
  obtain ⟨⟨⟩, s₂, hprotect, -⟩ := bind_run_eq_ok hrest
  have hquery' : (queryLocal 64 proc u address, s) = (.ok old, s₁) := hquery
  obtain rfl := (Prod.mk.inj hquery').2
  rw [Platform.protectPage, platform_fixedAddress] at hprotect
  have hprotect' : (os.protect (fixedAddress os address) (fixedAddress os address + 1) new).run s
      = (.ok (), s₂) := hprotect
  obtain ⟨hg, hs⟩ := Prod.mk.inj ((ofPage_run hopen hl hc hprotect').symm.trans h)
  obtain rfl := Except.ok.inj hg
  rw [← hs]
  exact ⟨rfl, hprotect'⟩

/-- No line with another protection ends at the address. -/
def EndsMatch (L : Listing) (address : BitVec 64) : Prop :=
  ∀ l ∈ L.lines, ∀ m ∈ L.lines, l.Contains address → m.endAddr = address →
    m.protection = l.protection

/-- Replaying the entry of the page puts the page back exactly if the ends
    match. -/
theorem pageEntry_apply_iff (hos : MprotectSpec ps os) (hd : Describes ps L s)
    {address : BitVec 64} {l : MapsLine} (hl : l ∈ L.lines) (hc : l.Contains address)
    (prot : NativeProtection) :
    (entryWrite ps (pageEntry os L address)).apply
        (setProt {address.toNat / ps.bytes} prot s) = s ↔ EndsMatch L address := by
  have hcells : (entryWrite ps (pageEntry os L address)).cells = {address.toNat / ps.bytes} :=
    rangePages_fixedAddress hos address
  have hpage : s (address.toNat / ps.bytes) = some l.protection.native := by
    refine hd.mapped l hl _ ((hasPage_div_iff ?_ ?_ _).mpr hc)
    · exact hd.aligned.begin_dvd l hl
    · exact hd.aligned.end_dvd l hl
  obtain ⟨h, hh, hscan, hwhich⟩ := scanRegion_mapped hl hc
  have hvalue : (entryWrite ps (pageEntry os L address)).value = some h.protection.native := by
    show some (scanRegion address 0 L.lines).protection.native = _
    rw [hscan, ← transformProt_eq (L.kernelPerms h hh)]
    rfl
  have hiff : (entryWrite ps (pageEntry os L address)).apply
      (setProt {address.toNat / ps.bytes} prot s) = s
        ↔ some h.protection.native = some l.protection.native := by
    rw [Write.apply, hcells, hvalue, ← hpage]
    constructor
    · intro heq
      have hat := congrFun heq (address.toNat / ps.bytes)
      rwa [put_mem (Set.mem_singleton _)] at hat
    · intro heq
      funext q
      by_cases hq : q ∈ ({address.toNat / ps.bytes} : Set Nat)
      · rw [put_mem hq, heq, Set.mem_singleton_iff.mp hq]
      · rw [put_not_mem hq, setProt, put_not_mem hq]
  rw [hiff]
  constructor
  · intro heq l' hl' m hm hc' hend
    -- the line that ends at the address is the one that was found
    have hlm : l' = l := L.ascending.eq_of_contains hl' hl hc' hc
    have hmh : m = h := by
      rcases hwhich with ⟨-, hne⟩ | hhend
      · exact absurd hend (hne m hm)
      · refine L.ascending.eq_of_hi_eq hm hh ?_
        show m.endAddr.toNat = h.endAddr.toNat
        rw [hend, hhend]
    rw [hlm, hmh]
    exact congrArg Protection.mk (Option.some.inj heq)
  · intro hends
    rcases hwhich with ⟨rfl, -⟩ | hhend
    · rfl
    · rw [hends l hl h hh hc hhend]

/-- The page of a mapped address as a range. -/
theorem pageRange_mapped (hos : MprotectSpec ps os) {address : BitVec 64}
    (hm : (s (address.toNat / ps.bytes)).isSome) :
    RangeMapped ps s (fixedAddress os address) (fixedAddress os address + 1) := by
  intro q hq
  rw [rangePages_fixedAddress hos] at hq
  rw [Set.mem_singleton_iff.mp hq]
  exact hm

/-- The destructor and `restore` behind a single-page constructor. -/
theorem restore_pageEntry_iff (hos : MprotectSpec ps os) (hd : Describes ps L s)
    {address : BitVec 64} (hm : (s (address.toNat / ps.bytes)).isSome) {l : MapsLine}
    (hl : l ∈ L.lines) (hc : l.Contains address) (prot : NativeProtection) :
    (((ProtectionGuard.destroy os.platform ⟨[pageEntry os L address]⟩).run
        (setProt {address.toNat / ps.bytes} prot s)).2 = s ↔ EndsMatch L address)
      ∧ ((ProtectionGuard.restore os.platform ⟨[pageEntry os L address]⟩
        (setProt {address.toNat / ps.bytes} prot s)).2 = s ↔ EndsMatch L address) := by
  have hmapped := pageRange_mapped hos hm
  have hpages := rangePages_fixedAddress hos address
  have hreplay : ∀ e ∈ [pageEntry os L address],
      Replayable ps (setProt {address.toNat / ps.bytes} prot s) e := by
    intro e he
    obtain rfl := List.mem_singleton.mp he
    refine ⟨pageEntry_bounds hos address, pageEntry_rwx hl hc, ?_⟩
    intro q hq
    rw [← hpages, setProt_isSome hmapped]
    exact hmapped q hq
  have hiff := pageEntry_apply_iff hos hd hl hc prot
  rw [destroy_run hos hreplay, restore_run hos _ hreplay]
  exact ⟨hiff, hiff⟩

/-- **`protection_guard(address, new)`** changes the page of the address only,
    and puts it back exactly if no line with another protection ends at the
    address. -/
theorem pageGuard_restores_iff (ps : PageSize) (os : Posix PageMap) (proc : Process) (u : Uninit)
    (L : Listing) (s : PageMap) (address : BitVec 64) (new : Protection)
    (hos : MprotectSpec ps os) (hd : Describes ps L s)
    (hopen : proc.openFile (mapsPath proc.getpid) = some L.text)
    (hm : (s (address.toNat / ps.bytes)).isSome) :
    (new.IsRwx → ∃ g s', (ProtectionGuard.ofPage os.platform (linuxQueries proc u) address new).run s
        = (.ok g, s'))
      ∧ ∀ g s', (ProtectionGuard.ofPage os.platform (linuxQueries proc u) address new).run s
          = (.ok g, s') →
        (∀ q, q ≠ address.toNat / ps.bytes → s' q = s q)
          ∧ (((g.destroy os.platform).run s').2 = s ↔ EndsMatch L address)
          ∧ ((g.restore os.platform s').2 = s ↔ EndsMatch L address) := by
  obtain ⟨l, hl, hp⟩ := hd.listed _ hm
  have hc : l.Contains address :=
    (hasPage_div_iff (hd.aligned.begin_dvd l hl) (hd.aligned.end_dvd l hl) _).mp hp
  have hmapped := pageRange_mapped hos hm
  constructor
  · intro hnew
    exact ⟨_, _, ofPage_run hopen hl hc
      (hos.protect_ok (pageEntry_bounds hos address) hnew hmapped)⟩
  · intro g s' hctor
    obtain ⟨rfl, hprotect⟩ := ofPage_eq_ok hopen hl hc hctor
    have hs' : s' = setProt {address.toNat / ps.bytes} new.native s := by
      rw [← rangePages_fixedAddress hos]
      exact hos.protect_sets (pageEntry_bounds hos address) hmapped hprotect
    rw [hs']
    refine ⟨?_, restore_pageEntry_iff hos hd hm hl hc new.native⟩
    intro q hq
    exact put_not_mem (fun h => hq (Set.mem_singleton_iff.mp h)) _ _

theorem pageGuard_restores_iff_sample :
    ((⟨7⟩ : Protection).IsRwx → ∃ g s', (ProtectionGuard.ofPage
        (walkingPosix samplePageSize).platform (linuxQueries sampleProcess sampleUninit)
        (0x3000 : BitVec 64) ⟨7⟩).run sampleState = (.ok g, s'))
      ∧ ∀ g s', (ProtectionGuard.ofPage (walkingPosix samplePageSize).platform
          (linuxQueries sampleProcess sampleUninit) (0x3000 : BitVec 64) ⟨7⟩).run sampleState
          = (.ok g, s') →
        (∀ q, q ≠ 0x3000 / samplePageSize.bytes → s' q = sampleState q)
          ∧ (((g.destroy (walkingPosix samplePageSize).platform).run s').2 = sampleState
            ↔ EndsMatch sampleListing 0x3000)
          ∧ ((g.restore (walkingPosix samplePageSize).platform s').2 = sampleState
            ↔ EndsMatch sampleListing 0x3000) :=
  pageGuard_restores_iff samplePageSize (walkingPosix samplePageSize) sampleProcess sampleUninit
    sampleListing sampleState 0x3000 ⟨7⟩ (walkingPosix_spec _) sampleState_described rfl (by decide)

/-- A guard on the first byte of the second mapping saves the protection of the
    first one. -/
theorem pageGuard_sample_end :
    MprotectSpec samplePageSize (walkingPosix samplePageSize)
      ∧ Describes samplePageSize sampleListing sampleState
      ∧ (sampleState ((0x2000 : BitVec 64).toNat / samplePageSize.bytes)).isSome
      ∧ ∃ g s', (ProtectionGuard.ofPage (walkingPosix samplePageSize).platform
          (linuxQueries sampleProcess sampleUninit) (0x2000 : BitVec 64) ⟨7⟩).run sampleState
          = (.ok g, s')
        ∧ ((g.destroy (walkingPosix samplePageSize).platform).run s').2 ≠ sampleState
        ∧ (g.restore (walkingPosix samplePageSize).platform s').2 ≠ sampleState := by
  have hos := walkingPosix_spec samplePageSize
  have hl : MapsLine.anonymous 0x2000 0x4000 true true false false ∈ sampleListing.lines :=
    List.mem_cons_of_mem _ (List.mem_cons_self ..)
  have hc : (MapsLine.anonymous 0x2000 0x4000 true true false false).Contains 0x2000 := by decide
  have hm : (sampleState ((0x2000 : BitVec 64).toNat / samplePageSize.bytes)).isSome := by decide
  have hends : ¬ EndsMatch sampleListing 0x2000 := by
    intro h
    have hprot := h _ hl (.anonymous 0x1000 0x2000 true false false false)
      (List.mem_cons_self ..) hc rfl
    exact absurd hprot (by decide)
  have hmapped := pageRange_mapped hos hm
  have hprotect := hos.protect_ok (pageEntry_bounds hos 0x2000)
    (show (⟨7⟩ : Protection).IsRwx by decide) hmapped
  have hpages := rangePages_fixedAddress hos 0x2000
  rw [rangePages] at hpages
  rw [hpages] at hprotect
  obtain ⟨hdestroy, hrestore⟩ := restore_pageEntry_iff hos sampleState_described hm hl hc 7
  refine ⟨hos, sampleState_described, hm, _, _, ofPage_run rfl hl hc hprotect, ?_, ?_⟩
  · exact fun h => hends (hdestroy.mp h)
  · exact fun h => hends (hrestore.mp h)

end VmUtils
