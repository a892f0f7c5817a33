import VmUtils.RepeatedQueryGuard
import VmUtils.StaleErrorCode

/-! # What guards restore on Windows and macOS

    The constructors of a guard over the two systems (`GuardSystem`).  The
    destructor of a range guard restores every page unless the last byte of the
    range begins a page with another protection (`rangeGuard_destroy_iff`), and
    `restore` does so only for a range with one protection
    (`rangeGuard_restore_iff`).  A guard of one page always restores it
    (`pageGuard_restores`), since these queries answer for the page of the address. -/

namespace VmUtils

open Overlay Pages Runs RetryStack

/-! ## The systems -/

/-- The systems whose `query_range` repeats `query`: 64-bit Windows and macOS. -/
inductive GuardSystem where
  | windows (os : Windows PageMap) (memory : WindowsMemory)
  | osx (os : Posix PageMap) (memory : MachMemory)

namespace GuardSystem

def platform : GuardSystem → Platform PageMap
  | .windows os _ => os.platform
  | .osx os _ => os.platform

/-- `query(address)`, with `std::uintptr_t` regions. -/
def query (sys : GuardSystem) {a : Nat} (address : BitVec a) : Except Exn (BasicRegion 64) :=
  match sys with
  | .windows _ memory => windowsQueryLocal 64 memory address
  | .osx _ memory => osxQueryLocal 64 memory address

/-- `protect` for a saved entry. -/
def attempt : GuardSystem → Attempt OldProtStorage Failure PageMap
  | .windows os _ => os.attempt
  | .osx os _ => os.attempt

end GuardSystem

/-- What is assumed of the Windows calls, on one allocation `A` and for the
    protections `V`. -/
structure WindowsConforms (ps : PageSize) (A : Set Nat) (V : NativeProtection → Prop)
    (os : Windows PageMap) : Prop where
  pageSize_eq : os.pageSize = BitVec.twoPow 64 ps.shift
  sets : VirtualProtectSpec ps os
  accepts : VirtualProtectAccepts ps A V os
  protect_code : ∀ addr size prot s code,
    (os.virtualProtect addr size prot s).1 = some code → code ≠ 0
  flush_code : ∀ addr size s code,
    (os.flushInstructionCache addr size s).1 = some code → code ≠ 0

/-- What is assumed of `mprotect`, for the protections `V`. -/
structure MprotectConforms (ps : PageSize) (V : NativeProtection → Prop) (os : Posix PageMap) :
    Prop where
  sets : MprotectSpec ps os
  rwx : ∀ prot, V prot → prot < 8
  errno : ∀ addr len prot s errno, (os.mprotect addr len prot s).1 = some errno → errno ≠ 0

/-- `VirtualQueryEx` answers for a committed page: a run of committed pages around
    the address that have one protection. -/
structure CommittedRun (ps : PageSize) (s : PageMap) (x : BitVec 64)
    (info : MemoryBasicInformation) : Prop where
  not_free : info.state ≠ memFree
  not_reserved : info.state ≠ memReserve
  base_le : info.baseAddress ≤ x
  lt_end : x < info.baseAddress + info.regionSize
  base_dvd : ps.bytes ∣ info.baseAddress.toNat
  end_dvd : ps.bytes ∣ (info.baseAddress + info.regionSize).toNat
  uniform : ∀ q, info.baseAddress.toNat ≤ q * ps.bytes →
    q * ps.bytes < (info.baseAddress + info.regionSize).toNat → s q = some info.protect

/-- `mach_vm_region` answers for an allocated page. -/
structure AllocatedRun (ps : PageSize) (s : PageMap) (x : BitVec 64) (info : MachRegion) :
    Prop where
  base_le : info.base ≤ x
  lt_end : x < info.base + info.size
  base_dvd : ps.bytes ∣ info.base.toNat
  end_dvd : ps.bytes ∣ (info.base + info.size).toNat
  uniform : ∀ q, info.base.toNat ≤ q * ps.bytes →
    q * ps.bytes < (info.base + info.size).toNat → s q = some info.protection

namespace GuardSystem

/-- The system behaves as assumed. -/
def Conforms (ps : PageSize) (A : Set Nat) (V : NativeProtection → Prop) : GuardSystem → Prop
  | .windows os _ => WindowsConforms ps A V os
  | .osx os _ => MprotectConforms ps V os

/-- The answers of the system describe the state `s`. -/
def Describes (ps : PageSize) (s : PageMap) : GuardSystem → Prop
  | .windows _ memory => ∀ x : BitVec 64, (s (x.toNat / ps.bytes)).isSome →
      ∃ info, memory.virtualQueryEx memory.getCurrentProcess x = .ok info
        ∧ CommittedRun ps s x info
  | .osx _ memory => ∀ x : BitVec 64, (s (x.toNat / ps.bytes)).isSome →
      ∃ info, memory.machVmRegion memory.machTaskSelf x = .ok info ∧ AllocatedRun ps s x info

variable {ps : PageSize} {A : Set Nat} {V : NativeProtection → Prop} {s : PageMap}
  {sys : GuardSystem}

theorem Conforms.attempts (h : sys.Conforms ps A V) : sys.platform.Attempts sys.attempt := by
  cases sys with
  | windows os memory =>
      exact os.platform_attempts (WindowsConforms.protect_code h) (WindowsConforms.flush_code h)
  | osx os memory => exact os.platform_attempts (MprotectConforms.errno h)

theorem Conforms.setsPages (h : sys.Conforms ps A V) : SetsPages ps A V sys.attempt := by
  cases sys with
  | windows os memory =>
      exact (WindowsConforms.sets h).setsPages (WindowsConforms.accepts h)
  | osx os memory => exact (MprotectConforms.sets h).setsPages (MprotectConforms.rwx h)

/-- `parse_info` of a committed page. -/
theorem parseInfo_committed {info : MemoryBasicInformation} (hfree : info.state ≠ memFree)
    (hreserved : info.state ≠ memReserve) :
    parseInfo 64 info = .ok (BasicRegion.mapped info.baseAddress
      (info.baseAddress + info.regionSize) ⟨info.protect⟩ (info.type &&& memPrivate == 0)
      (info.protect &&& pageGuard != 0)) := by
  simp only [parseInfo, addressCast_self, if_neg hfree, if_neg hreserved]
  rfl

/-- **The queries answer for mapped pages.** -/
theorem Describes.query_eq (h : sys.Describes ps s) {x : BitVec 64}
    (hx : (s (x.toNat / ps.bytes)).isSome) :
    ∃ r, sys.query x = .ok r ∧ AnswersRun ps s x r := by
  cases sys with
  | windows os memory =>
      obtain ⟨info, hinfo, hrun⟩ := h x hx
      obtain ⟨hfree, hreserved, hbase, hend, hbd, hed, huniform⟩ := hrun
      have hnative : nativeQuery memory memory.getCurrentProcess x = .ok info := by
        rw [nativeQuery, hinfo]
      refine ⟨BasicRegion.mapped info.baseAddress (info.baseAddress + info.regionSize)
        ⟨info.protect⟩ (info.type &&& memPrivate == 0) (info.protect &&& pageGuard != 0), ?_,
        ⟨hbase, hend, hbd, hed, huniform⟩⟩
      show windowsQuery 64 memory memory.getCurrentProcess x = _
      rw [windowsQuery, addressCast_self]
      show (nativeQuery memory memory.getCurrentProcess x >>= fun info => parseInfo 64 info) = _
      rw [hnative]
      exact parseInfo_committed hfree hreserved
  | osx os memory =>
      obtain ⟨info, hinfo, hrun⟩ := h x hx
      obtain ⟨hbase, hend, hbd, hed, huniform⟩ := hrun
      refine ⟨BasicRegion.mapped info.base (info.base + info.size) ⟨info.protection⟩
        (isShared info.shareMode) (info.userTag == vmMemoryGuard), ?_,
        ⟨hbase, hend, hbd, hed, huniform⟩⟩
      show osxQuery 64 memory memory.machTaskSelf x = _
      have hnlt : ¬ x < info.base := Nat.not_lt.mpr hbase
      rw [osxQuery_of_info hinfo, if_neg hnlt]

end GuardSystem

/-! ## The range constructor -/

/-- The queries of a system whose `query_range` has given `regions`. -/
def Queries.repeating (query : {a : Nat} → BitVec a → Except Exn (BasicRegion 64))
    (regions : Except Exn (List (BasicRegion 64))) : Queries where
  query := query
  queryRange := fun _ _ => regions

/-- `protection_guard(begin, end, new_protection)`, the loop of `query_range` having
    `fuel` rounds. -/
def ProtectionGuard.ofRangeRepeating (sys : GuardSystem) (fuel : Nat) (first last : BitVec 64)
    (newProtection : Protection) (s : PageMap) : Option (Except Exn ProtectionGuard × PageMap) :=
  (queryRangeUsingQuery (fun x : BitVec 64 => sys.query x) fuel first last).map (fun regions =>
    (ProtectionGuard.ofRange sys.platform (Queries.repeating sys.query regions) first last
      newProtection).run s)

variable {ps : PageSize} {A : Set Nat} {V : NativeProtection → Prop} {s s' t : PageMap}
  {sys : GuardSystem} {first last : BitVec 64} {new : Protection} {fuel : Nat}
  {g : ProtectionGuard}

/-- The query loop of a mapped range. -/
theorem GuardSystem.Describes.queryRange_eq (hd : sys.Describes ps s)
    (hm : RangeMapped ps s first last) (hfuel : last.toNat - first.toNat < fuel) :
    ∃ rs, queryRangeUsingQuery (fun x : BitVec 64 => sys.query x) fuel first last
        = some (.ok rs) ∧ Collected ps s last first rs := by
  have hq : ∀ x, first ≤ x → x < last → ∃ r, sys.query x = .ok r ∧ AnswersRun ps s x r := by
    intro x h1 h2
    exact hd.query_eq (hm _ ⟨x.toNat, h1, h2, rfl⟩)
  obtain ⟨rs, hrun, hrs⟩ := usingQueryLoop_collected hq fuel (Nat.le_refl _) hfuel []
  refine ⟨rs, ?_, hrs⟩
  rw [queryRangeUsingQuery, addressCast_self, addressCast_self]
  exact hrun

/-- **A range constructor that returns** has saved the collected regions and set
    the pages of its range; more fuel does not matter. -/
theorem ofRangeRepeating_eq_ok (hsys : sys.Conforms ps A V) (hd : sys.Describes ps s)
    (hle : first ≤ last) (hm : RangeMapped ps s first last)
    (h : ProtectionGuard.ofRangeRepeating sys fuel first last new s = some (.ok g, s')) :
    ∃ rs, Collected ps s last first rs ∧ g = ⟨rs.map (savedEntry first last)⟩
      ∧ s' = setProt (rangePages ps first last) new.native s := by
  obtain ⟨regions, hloop, hrun⟩ := Option.map_eq_some_iff.mp h
  obtain ⟨rs, hloop', hrs⟩ := hd.queryRange_eq hm (Nat.lt_succ_self _)
  have hregions : regions = .ok rs := by
    rw [queryRangeUsingQuery, addressCast_self, addressCast_self] at hloop hloop'
    exact usingQueryLoop_unique hloop hloop'
  obtain ⟨rs', s₁, hquery, hrest⟩ := bind_run_eq_ok hrun
  have hquery' : (regions, s) = (.ok rs', s₁) := hquery
  obtain ⟨hrs', hs₁⟩ := Prod.mk.inj hquery'
  obtain rfl := Except.ok.inj (hregions.symm.trans hrs')
  obtain ⟨⟨⟩, s₂, hprotect, hlast⟩ := bind_run_eq_ok hrest
  obtain ⟨hg, hs₂⟩ := Prod.mk.inj
    (show (Except.ok (ProtectionGuard.mk (rs.map (savedEntry first last))), s₂) = (.ok g, s')
      from hlast)
  rw [← hs₁, hs₂] at hprotect
  exact ⟨rs, hrs, (Except.ok.inj hg).symm,
    hsys.setsPages.protect_sets hsys.attempts hle hm hprotect⟩

/-- The constructor returns on a mapped range for an accepted protection. -/
theorem ofRangeRepeating_returns (first last : BitVec 64) (new : Protection) (fuel : Nat)
    (hsys : sys.Conforms ps A V) (hd : sys.Describes ps s) (hle : first ≤ last)
    (hm : ∀ q ∈ rangePages ps first last, q ∈ A ∧ (s q).isSome)
    (hnew : V new.native) (hfuel : last.toNat - first.toNat < fuel) :
    ∃ g, ProtectionGuard.ofRangeRepeating sys fuel first last new s
      = some (.ok g, setProt (rangePages ps first last) new.native s) := by
  obtain ⟨rs, hloop, -⟩ := hd.queryRange_eq (fun q hq => (hm q hq).2) hfuel
  have hprotect := hsys.setsPages.protect_ok hsys.attempts hle hnew hm
  refine ⟨⟨rs.map (savedEntry first last)⟩, ?_⟩
  rw [ProtectionGuard.ofRangeRepeating, hloop]
  refine congrArg some ?_
  show (ProtectionGuard.ofRange sys.platform (Queries.repeating sys.query (.ok rs)) first last
    new).run s = _
  have hquery : (liftM ((Queries.repeating sys.query (.ok rs)).queryRange first last) :
      OsM PageMap _).run s = (.ok rs, s) := rfl
  rw [ProtectionGuard.ofRange]
  refine (bind_run_ok hquery _).trans ?_
  exact bind_run_ok hprotect _

/-- An empty range has no entries. -/
theorem Collected.eq_nil {cur : BitVec 64} {rs : List (BasicRegion 64)}
    (h : Collected ps s last cur rs) (hstop : ¬ cur < last) : rs = [] := by
  cases h with
  | stop => rfl
  | go hlt => exact absurd hlt hstop

theorem rangePages_self (ps : PageSize) (first : BitVec 64) : rangePages ps first first = ∅ :=
  pagesMeeting_empty (Nat.le_refl _)

/-- Undoing a change of some pages. -/
theorem put_setProt (S : Set Nat) (prot : NativeProtection) (s : PageMap) :
    put S s (setProt S prot s) = s := by
  ext q : 1
  by_cases hq : q ∈ S
  · rw [put_mem hq]
  · rw [put_not_mem hq, setProt, put_not_mem hq]

/-- Neighbouring pages agree exactly if all pages of the range do. -/
theorem uniformRange_iff (hlt : first < last) :
    UniformRange ps s first last
      ↔ ∀ q, first.toNat / ps.bytes < q → q ≤ (last.toNat - 1) / ps.bytes → s (q - 1) = s q := by
  rw [UniformRange, rangePages_eq_Icc hlt]
  constructor
  · intro h q hq hqb
    exact h (q - 1) ⟨by omega, by omega⟩ q ⟨by omega, hqb⟩
  · intro h
    have hfrom : ∀ n, first.toNat / ps.bytes + n ≤ (last.toNat - 1) / ps.bytes →
        s (first.toNat / ps.bytes + n) = s (first.toNat / ps.bytes) := by
      intro n
      induction n with
      | zero =>
          intro _
          rfl
      | succ n ih =>
          intro hn
          rw [← ih (by omega)]
          exact (h (first.toNat / ps.bytes + (n + 1)) (by omega) hn).symm
    intro q hq q' hq'
    obtain ⟨n, rfl⟩ := Nat.exists_eq_add_of_le hq.1
    obtain ⟨n', rfl⟩ := Nat.exists_eq_add_of_le hq'.1
    rw [hfrom n hq.2, hfrom n' hq'.2]

/-! ## What a range guard restores -/

/-- The destructor of a range guard on a state with the same pages mapped. -/
theorem Collected.destroy_iff (hsys : sys.Conforms ps A V) {rs : List (BasicRegion 64)}
    (hrs : Collected ps s last first rs) (hlt : first < last)
    (hV : ∀ q prot, s q = some prot → V prot) (hA : ∀ q ∈ rangePages ps first last, q ∈ A)
    (ht : RangeMapped ps t first last) :
    ∃ t', ((ProtectionGuard.mk (rs.map (savedEntry first last))).destroy sys.platform).run t
        = (.ok (), t')
      ∧ (t' = put (rangePages ps first last) s t ↔ LastTwoMatch ps s first last) := by
  have hold := hrs.restorable (Nat.le_refl _) hlt hV hA ht
  refine ⟨_, hsys.setsPages.destroy_run hsys.attempts hold, ?_⟩
  have hne : rs.map (pageRun ps) ≠ [] := by
    intro hnil
    obtain rfl := List.map_eq_nil_iff.mp hnil
    cases hrs with
    | stop hstop => exact hstop hlt
  have hreach := hrs.last_le (fun hnil => hne (hnil ▸ rfl))
  rw [hrs.entries (Nat.le_refl _), rangePages_eq_Icc hlt, replay_runs_eq_iff hrs.enteredAt hne]
  · exact hrs.lastTwoMatch_iff hlt
  · refine (Nat.div_le_div_right (by omega)).trans
      (Nat.le_of_eq (Nat.mul_div_cancel _ ps.pos_bytes))

/-- **The destructor of a range guard** restores every page exactly if the last
    two bytes of the range have the same protection. -/
theorem rangeGuard_destroy_iff (ps : PageSize) (A : Set Nat) (V : NativeProtection → Prop)
    (sys : GuardSystem) (s s' : PageMap) (first last : BitVec 64) (new : Protection) (fuel : Nat)
    (g : ProtectionGuard) (hsys : sys.Conforms ps A V) (hd : sys.Describes ps s)
    (hV : ∀ q prot, s q = some prot → V prot) (hle : first ≤ last)
    (hA : ∀ q ∈ rangePages ps first last, q ∈ A) (hm : RangeMapped ps s first last)
    (hctor : ProtectionGuard.ofRangeRepeating sys fuel first last new s = some (.ok g, s')) :
    s' = setProt (rangePages ps first last) new.native s
      ∧ ((g.destroy sys.platform).run s' = (.ok (), s) ↔ LastTwoMatch ps s first last) := by
  obtain ⟨rs, hrs, rfl, hs'⟩ := ofRangeRepeating_eq_ok hsys hd hle hm hctor
  refine ⟨hs', ?_⟩
  by_cases hlt : first < last
  · have hmapped : RangeMapped ps s' first last := by
      intro q hq
      rw [hs', setProt, put_mem hq]
      rfl
    obtain ⟨t', hrun, hiff⟩ := hrs.destroy_iff hsys hlt hV hA hmapped
    rw [hs', put_setProt] at hiff
    rw [hrun, ← hiff]
    constructor
    · intro h
      exact (Prod.mk.inj h).2
    · rintro rfl
      rfl
  · obtain rfl : first = last := by bv_omega
    obtain rfl := hrs.eq_nil (Nat.lt_irrefl _)
    rw [hs', rangePages_self, setProt, put_empty]
    refine iff_of_true (destroy_empty _ s) ?_
    intro hroom
    omega

/-- **`restore()` and `restore(ec)` of a range guard** restore every page exactly
    if the pages of the range had one protection. -/
theorem rangeGuard_restore_iff (ps : PageSize) (A : Set Nat) (V : NativeProtection → Prop)
    (sys : GuardSystem) (s s' : PageMap) (first last : BitVec 64) (new : Protection) (fuel : Nat)
    (g : ProtectionGuard) (ec : ErrorCode) (hsys : sys.Conforms ps A V) (hd : sys.Describes ps s)
    (hV : ∀ q prot, s q = some prot → V prot) (hle : first ≤ last)
    (hA : ∀ q ∈ rangePages ps first last, q ∈ A) (hm : RangeMapped ps s first last)
    (hctor : ProtectionGuard.ofRangeRepeating sys fuel first last new s = some (.ok g, s'))
    (hec : ec.isSet = false) :
    (g.restore sys.platform s' = ((.ok (), ⟨[]⟩), s) ↔ UniformRange ps s first last)
      ∧ (g.restoreEc sys.platform ec s' = ((.ok ec, ⟨[]⟩), s)
        ↔ UniformRange ps s first last) := by
  obtain ⟨rs, hrs, rfl, hs'⟩ := ofRangeRepeating_eq_ok hsys hd hle hm hctor
  by_cases hlt : first < last
  · have hmapped : RangeMapped ps s' first last := by
      intro q hq
      rw [hs', setProt, put_mem hq]
      rfl
    have hold := hrs.restorable (Nat.le_refl _) hlt hV hA hmapped
    have hne : rs.map (pageRun ps) ≠ [] := by
      intro hnil
      obtain rfl := List.map_eq_nil_iff.mp hnil
      cases hrs with
      | stop hstop => exact hstop hlt
    have hreach := hrs.last_le (fun hnil => hne (hnil ▸ rfl))
    have hiff := replay_reverse_runs_eq_iff (b := (last.toNat - 1) / ps.bytes) hrs.enteredAt hne
      ((Nat.div_le_div_right (by omega)).trans
        (Nat.le_of_eq (Nat.mul_div_cancel _ ps.pos_bytes))) s'
    rw [← hrs.entries (Nat.le_refl _), ← rangePages_eq_Icc hlt, hs', put_setProt, ← hs',
      ← uniformRange_iff hlt] at hiff
    rw [hsys.setsPages.restore_run hsys.attempts hold,
      hsys.setsPages.restoreEc_run hsys.attempts hold hec, ← hiff]
    constructor
    · constructor
      · intro h
        exact (Prod.mk.inj h).2
      · intro h
        rw [h]
    · constructor
      · intro h
        exact (Prod.mk.inj h).2
      · intro h
        rw [h]
  · obtain rfl : first = last := by bv_omega
    obtain rfl := hrs.eq_nil (Nat.lt_irrefl _)
    have huniform : UniformRange ps s first first := by
      intro q hq
      rw [rangePages_self] at hq
      cases hq
    rw [hs', rangePages_self, setProt, put_empty]
    exact ⟨iff_of_true (restore_nil _ s) huniform, iff_of_true (restoreEc_nil _ ec s) huniform⟩

/-! ## The single-page guard -/

theorem GuardSystem.Conforms.pageSize_eq (h : sys.Conforms ps A V) :
    sys.platform.pageSize = BitVec.twoPow 64 ps.shift := by
  cases sys with
  | windows os memory => exact WindowsConforms.pageSize_eq h
  | osx os memory => exact (MprotectConforms.sets h).pageSize_eq

/-- One byte meets its page only. -/
theorem rangePages_byte (ps : PageSize) {x : BitVec 64} (h : x.toNat + 1 < 2 ^ 64) :
    x < x + 1 ∧ rangePages ps x (x + 1) = {x.toNat / ps.bytes} := by
  have hsucc : (x + 1).toNat = x.toNat + 1 := by bv_omega
  have hlt : x < x + 1 := by
    show x.toNat < (x + 1).toNat
    omega
  refine ⟨hlt, ?_⟩
  rw [rangePages_eq_Icc hlt, hsucc, Nat.add_sub_cancel, Set.Icc_self]

/-- The byte that stands for the page of an address. -/
theorem GuardSystem.Conforms.fixed_toNat (h : sys.Conforms ps A V) (address : BitVec 64) :
    (address &&& ~~~(sys.platform.pageSize - 1)).toNat
      = address.toNat / ps.bytes * ps.bytes := by
  have hmask : address &&& ~~~(sys.platform.pageSize - 1)
      = address &&& -sys.platform.pageSize := congrArg _ (not_sub_one sys.platform.pageSize)
  rw [hmask, h.pageSize_eq]
  exact and_neg_twoPow address ps.lt

/-- The byte at which `protect` of one page begins, on either system. -/
theorem GuardSystem.Conforms.fixedAddress_toNat (h : sys.Conforms ps A V) (address : BitVec 64) :
    (sys.platform.fixedAddress address).toNat ≤ address.toNat
      ∧ (sys.platform.fixedAddress address).toNat / ps.bytes = address.toNat / ps.bytes := by
  cases sys with
  | windows os memory => exact ⟨Nat.le_refl _, rfl⟩
  | osx os memory =>
      have hfixed : (os.platform.fixedAddress address).toNat
          = address.toNat / ps.bytes * ps.bytes := by
        rw [posix_fixedAddress]
        exact roundDown_toNat (MprotectConforms.sets h).pageSize_eq address
      show (os.platform.fixedAddress address).toNat ≤ _
        ∧ (os.platform.fixedAddress address).toNat / _ = _
      rw [hfixed]
      exact ⟨Nat.div_mul_le_self .., Nat.mul_div_cancel _ ps.pos_bytes⟩

/-- **A single-page constructor that returns** has saved one entry, which writes
    what the page held, and set the page. -/
theorem ofPageRepeating_eq_ok (hsys : sys.Conforms ps A V) (hd : sys.Describes ps s)
    {regions : Except Exn (List (BasicRegion 64))} {address : BitVec 64}
    (hm : (s (address.toNat / ps.bytes)).isSome)
    (h : (ProtectionGuard.ofPage sys.platform (Queries.repeating sys.query regions) address
      new).run s = (.ok g, s')) :
    s' = setProt {address.toNat / ps.bytes} new.native s
      ∧ ∃ e, g = ⟨[e]⟩ ∧ e.beginAddr < e.endAddr
        ∧ (entryWrite ps e).cells = {address.toNat / ps.bytes}
        ∧ s (address.toNat / ps.bytes) = some e.prot := by
  obtain ⟨r, hr, hans⟩ := hd.query_eq hm
  have hpage : s (address.toNat / ps.bytes) = some r.protection.native :=
    hans.holdsIn _ hans.page.1 hans.page.2
  have htop : address.toNat + 1 < 2 ^ 64 := by
    have hlt : address.toNat < r.endAddr.toNat := hans.lt_end
    have hend := r.endAddr.isLt
    omega
  obtain ⟨old, s₁, hquery, hrest⟩ := bind_run_eq_ok h
  have hquery' : (sys.query address, s) = (.ok old, s₁) := hquery
  obtain ⟨hold, hs₁⟩ := Prod.mk.inj hquery'
  obtain rfl := Except.ok.inj (hr.symm.trans hold)
  obtain ⟨⟨⟩, s₂, hprotect, hlast⟩ := bind_run_eq_ok hrest
  have hfixed := hsys.fixed_toNat address
  generalize hx : address &&& ~~~(sys.platform.pageSize - 1) = x at hfixed
  have hg : g = ⟨[⟨x, x + 1, r.protection.native⟩]⟩ ∧ s₂ = s' := by
    rw [addressCastUnchecked_self, hx] at hlast
    obtain ⟨hg, hs₂⟩ := Prod.mk.inj hlast
    exact ⟨(Except.ok.inj hg).symm, hs₂⟩
  obtain ⟨hle, hdiv⟩ := hsys.fixedAddress_toNat address
  obtain ⟨hbyte, hpages⟩ := rangePages_byte ps
    (show (sys.platform.fixedAddress address).toNat + 1 < 2 ^ 64 by omega)
  rw [hdiv] at hpages
  refine ⟨?_, ⟨x, x + 1, r.protection.native⟩, hg.1, ?_⟩
  · rw [← hs₁, hg.2] at hprotect
    rw [← hpages]
    refine hsys.setsPages.protect_sets hsys.attempts (Nat.le_of_lt hbyte) ?_ hprotect
    intro q hq
    rw [hpages] at hq
    rw [show q = _ from hq]
    exact hm
  · have hxle : x.toNat ≤ address.toNat := by
      rw [hfixed]
      exact Nat.div_mul_le_self ..
    obtain ⟨hxlt, hcells⟩ := rangePages_byte ps (show x.toNat + 1 < 2 ^ 64 by omega)
    rw [hfixed, Nat.mul_div_cancel _ ps.pos_bytes] at hcells
    exact ⟨hxlt, hcells, hpage⟩

/-- The constructor returns on a mapped page for an accepted protection. -/
theorem ofPageRepeating_returns (regions : Except Exn (List (BasicRegion 64)))
    (address : BitVec 64) (new : Protection) (hsys : sys.Conforms ps A V)
    (hd : sys.Describes ps s) (hA : address.toNat / ps.bytes ∈ A)
    (hm : (s (address.toNat / ps.bytes)).isSome)
    (hnew : V new.native) :
    ∃ g, (ProtectionGuard.ofPage sys.platform (Queries.repeating sys.query regions) address
      new).run s = (.ok g, setProt {address.toNat / ps.bytes} new.native s) := by
  obtain ⟨r, hr, hans⟩ := hd.query_eq hm
  have htop : address.toNat + 1 < 2 ^ 64 := by
    have hlt : address.toNat < r.endAddr.toNat := hans.lt_end
    have hend := r.endAddr.isLt
    omega
  obtain ⟨hle, hdiv⟩ := hsys.fixedAddress_toNat address
  obtain ⟨hbyte, hpages⟩ := rangePages_byte ps
    (show (sys.platform.fixedAddress address).toNat + 1 < 2 ^ 64 by omega)
  rw [hdiv] at hpages
  have hprotect := hsys.setsPages.protect_ok hsys.attempts (Nat.le_of_lt hbyte) hnew (s := s)
    (by
      intro q hq
      rw [hpages] at hq
      rw [show q = _ from hq]
      exact ⟨hA, hm⟩)
  rw [hpages] at hprotect
  have hquery : (liftM ((Queries.repeating sys.query regions).query address) :
      OsM PageMap _).run s = (.ok r, s) := by
    show (sys.query address, s) = _
    rw [hr]
  refine ⟨⟨[⟨address &&& ~~~(sys.platform.pageSize - 1),
    (address &&& ~~~(sys.platform.pageSize - 1)) + 1, r.protection.native⟩]⟩, ?_⟩
  rw [ProtectionGuard.ofPage, addressCastUnchecked_self]
  exact (bind_run_ok hquery _).trans (bind_run_ok hprotect _)

/-- The entry of a page can be written back while the page is mapped. -/
theorem pageEntry_restorable {e : OldProtStorage} {q : Nat}
    (hbounds : e.beginAddr < e.endAddr) (hcells : (entryWrite ps e).cells = {q})
    (hprot : s q = some e.prot) (hV : ∀ q prot, s q = some prot → V prot) (hA : q ∈ A)
    (ht : (t q).isSome) : ∀ e' ∈ [e], Restorable ps A V t e' := by
  intro e' he'
  obtain rfl := List.mem_singleton.mp he'
  refine ⟨hbounds, hV _ _ hprot, ?_⟩
  intro p hp
  rw [hcells] at hp
  rw [show p = q from hp]
  exact ⟨hA, ht⟩

/-- Written back, it puts the page back. -/
theorem replay_pageEntry {e : OldProtStorage} {q : Nat} (hcells : (entryWrite ps e).cells = {q})
    (hprot : s q = some e.prot) (t : PageMap) :
    replay ([e].map (entryWrite ps)) t = put {q} s t := by
  ext p : 1
  show (entryWrite ps e).apply t p = _
  rw [Write.apply, hcells]
  by_cases hp : p ∈ ({q} : Set Nat)
  · rw [put_mem hp, put_mem hp, show p = q from hp, hprot]
    rfl
  · rw [put_not_mem hp, put_not_mem hp]

/-- **A guard of one page** restores it on either system, by its destructor and
    by `restore`, and in between no other page has changed. -/
theorem pageGuard_restores (ps : PageSize) (A : Set Nat) (V : NativeProtection → Prop)
    (sys : GuardSystem) (regions : Except Exn (List (BasicRegion 64))) (s s' : PageMap)
    (address : BitVec 64) (new : Protection) (g : ProtectionGuard) (ec : ErrorCode)
    (hsys : sys.Conforms ps A V) (hd : sys.Describes ps s)
    (hV : ∀ q prot, s q = some prot → V prot) (hA : address.toNat / ps.bytes ∈ A)
    (hm : (s (address.toNat / ps.bytes)).isSome)
    (hctor : (ProtectionGuard.ofPage sys.platform (Queries.repeating sys.query regions) address
      new).run s = (.ok g, s'))
    (hec : ec.isSet = false) :
    s' = setProt {address.toNat / ps.bytes} new.native s
      ∧ (g.destroy sys.platform).run s' = (.ok (), s)
      ∧ g.restore sys.platform s' = ((.ok (), ⟨[]⟩), s)
      ∧ g.restoreEc sys.platform ec s' = ((.ok ec, ⟨[]⟩), s) := by
  obtain ⟨hset, e, rfl, hbounds, hcells, hprot⟩ := ofPageRepeating_eq_ok hsys hd hm hctor
  have hmapped : (s' (address.toNat / ps.bytes)).isSome := by
    rw [hset, setProt, put_mem (Set.mem_singleton _)]
    rfl
  have hold := pageEntry_restorable hbounds hcells hprot hV hA hmapped
  have hback : replay ([e].map (entryWrite ps)) s' = s := by
    rw [replay_pageEntry hcells hprot, hset, put_setProt]
  refine ⟨hset, ?_, ?_, ?_⟩
  · rw [hsys.setsPages.destroy_run hsys.attempts hold]
    exact congrArg (Prod.mk (Except.ok ())) hback
  · rw [hsys.setsPages.restore_run hsys.attempts hold]
    exact congrArg (Prod.mk (Except.ok (), ProtectionGuard.mk [])) hback
  · rw [hsys.setsPages.restoreEc_run hsys.attempts hold hec]
    exact congrArg (Prod.mk (Except.ok ec, ProtectionGuard.mk [])) hback

/-! ## A state, page by page -/

/-- `VirtualQueryEx` answering with the page of the address alone. -/
def pagewiseWindows (s : PageMap) : WindowsMemory where
  virtualQueryEx := fun _ x => .ok {
    baseAddress := BitVec.ofNat 64 (x.toNat / 4096 * 4096)
    regionSize := 0x1000
    state := if (s (x.toNat / 4096)).isSome then 0x1000 else memFree
    protect := (s (x.toNat / 4096)).getD 0
    type := memPrivate }
  getCurrentProcess := -1

/-- `mach_vm_region` answering with the page of the address alone. -/
def pagewiseMach (s : PageMap) : MachMemory where
  machVmRegion := fun _ x => .ok {
    base := BitVec.ofNat 64 (x.toNat / 4096 * 4096)
    size := 0x1000
    protection := (s (x.toNat / 4096)).getD 0
    shareMode := 1
    userTag := 0 }
  machTaskSelf := 1

/-- The page of an address is a run of pages around it, below the last page. -/
theorem pagewise_run {s : PageMap} {x : BitVec 64} (htop : x.toNat / 4096 + 1 < 2 ^ 52)
    (hx : (s (x.toNat / 4096)).isSome) :
    let base := BitVec.ofNat 64 (x.toNat / 4096 * 4096)
    base ≤ x ∧ x < base + 0x1000 ∧ samplePageSize.bytes ∣ base.toNat
      ∧ samplePageSize.bytes ∣ (base + 0x1000).toNat
      ∧ ∀ q, base.toNat ≤ q * samplePageSize.bytes →
        q * samplePageSize.bytes < (base + 0x1000).toNat →
        s q = some ((s (x.toNat / 4096)).getD 0) := by
  have hpage : samplePageSize.bytes = 4096 := rfl
  have hsize : (0x1000 : BitVec 64).toNat = 4096 := rfl
  have hle : x.toNat / 4096 * 4096 ≤ x.toNat := Nat.div_mul_le_self ..
  have hbase : (BitVec.ofNat 64 (x.toNat / 4096 * 4096)).toNat = x.toNat / 4096 * 4096 := by
    rw [BitVec.toNat_ofNat, Nat.mod_eq_of_lt (by omega)]
  have hend : (BitVec.ofNat 64 (x.toNat / 4096 * 4096) + 0x1000).toNat
      = (x.toNat / 4096 + 1) * 4096 := by
    rw [BitVec.toNat_add, hbase, hsize, Nat.mod_eq_of_lt (by omega), Nat.succ_mul]
  dsimp only
  rw [hbase, hend, hpage]
  refine ⟨?_, ?_, Dvd.intro_left _ rfl, Dvd.intro_left _ rfl, ?_⟩
  · show (BitVec.ofNat 64 _).toNat ≤ x.toNat
    rw [hbase]
    exact hle
  · show x.toNat < (BitVec.ofNat 64 _ + 0x1000).toNat
    rw [hend]
    omega
  · intro q h1 h2
    obtain rfl : q = x.toNat / 4096 := by omega
    obtain ⟨prot, hprot⟩ := Option.isSome_iff_exists.mp hx
    rw [hprot]
    rfl

theorem pagewiseWindows_describes (os : Windows PageMap) {s : PageMap}
    (hs : ∀ q, (s q).isSome → q + 1 < 2 ^ 52) :
    (GuardSystem.windows os (pagewiseWindows s)).Describes samplePageSize s := by
  intro x hx
  have hpage : (s (x.toNat / 4096)).isSome := hx
  obtain ⟨h1, h2, h3, h4, h5⟩ := pagewise_run (hs _ hx) hx
  refine ⟨_, rfl, ?_, ?_, h1, h2, h3, h4, h5⟩
  · show (if (s (x.toNat / 4096)).isSome then (0x1000 : BitVec 32) else memFree) ≠ memFree
    rw [if_pos hpage]
    decide
  · show (if (s (x.toNat / 4096)).isSome then (0x1000 : BitVec 32) else memFree) ≠ memReserve
    rw [if_pos hpage]
    decide

theorem pagewiseMach_describes (os : Posix PageMap) {s : PageMap}
    (hs : ∀ q, (s q).isSome → q + 1 < 2 ^ 52) :
    (GuardSystem.osx os (pagewiseMach s)).Describes samplePageSize s := by
  intro x hx
  obtain ⟨h1, h2, h3, h4, h5⟩ := pagewise_run (hs _ hx) hx
  exact ⟨_, rfl, h1, h2, h3, h4, h5⟩

/-- The walking calls accept everything on mapped pages. -/
theorem walkingWindows_accepts (ps : PageSize) (A : Set Nat) (V : NativeProtection → Prop) :
    VirtualProtectAccepts ps A V (walkingWindows ps none) := by
  refine ⟨?_, fun _ _ _ _ _ => rfl⟩
  intro addr size prot s hsize _ hmapped
  have hne : size ≠ 0 := by
    rintro rfl
    exact absurd hsize (Nat.lt_irrefl _)
  have hwalk : (mprotectPages prot ((addr.toNat + size.toNat + ps.bytes - 1) / ps.bytes
      - addr.toNat / ps.bytes) (addr.toNat / ps.bytes) s).1 = none := by
    refine mprotectPages_mapped prot _ _ s ?_
    intro p h1 h2
    have hceil : p + 1 ≤ (addr.toNat + size.toNat + ps.bytes - 1) / ps.bytes := by omega
    rw [Nat.le_div_iff_mul_le ps.pos_bytes, Nat.succ_mul] at hceil
    have hsize' : 0 < size.toNat := hsize
    exact (hmapped p ((mem_pagesMeeting ps.pos_bytes).mpr
      ⟨by omega, h1, by omega⟩)).2
  show (if size = 0 then (some 87, s) else _ : Option Int × PageMap).1 = none
  rw [if_neg hne]
  rcases hrun : mprotectPages prot ((addr.toNat + size.toNat + ps.bytes - 1) / ps.bytes
    - addr.toNat / ps.bytes) (addr.toNat / ps.bytes) s with ⟨r, s'⟩
  rw [hrun] at hwalk
  obtain rfl : r = none := hwalk
  rfl

/-- A combination of the bits of `access`. -/
def IsAccess (prot : NativeProtection) : Prop := prot < 8

instance isAccess_decidable (prot : NativeProtection) : Decidable (IsAccess prot) :=
  inferInstanceAs (Decidable (prot < 8))

/-- Windows over the walking calls, its queries describing `s`. -/
def walkingWindowsSystem (s : PageMap) : GuardSystem :=
  .windows (walkingWindows samplePageSize none) (pagewiseWindows s)

/-- macOS over the walking `mprotect`. -/
def walkingOsxSystem (s : PageMap) : GuardSystem :=
  .osx (walkingPosix samplePageSize) (pagewiseMach s)

theorem walkingWindowsSystem_conforms (s : PageMap) :
    (walkingWindowsSystem s).Conforms samplePageSize Set.univ IsAccess := by
  refine ⟨rfl, walkingWindows_spec _ _, walkingWindows_accepts _ _ _,
    walkingWindows_virtualProtect_code _ _, ?_⟩
  intro addr size t code h
  cases h

theorem walkingOsxSystem_conforms (s : PageMap) :
    (walkingOsxSystem s).Conforms samplePageSize Set.univ IsAccess :=
  ⟨walkingPosix_spec _, fun _ h => h, walkingPosix_errno _⟩

/-- Two pages with different protections. -/
def sampleGuardState : PageMap := fun q => if q = 2 then some 4 else if q = 3 then some 2 else none

theorem sampleGuardState_eq {q : Nat} {prot : NativeProtection}
    (h : sampleGuardState q = some prot) : (q = 2 ∨ q = 3) ∧ IsAccess prot := by
  rw [sampleGuardState] at h
  split at h
  · next h2 =>
      obtain rfl := Option.some.inj h
      exact ⟨Or.inl h2, by decide⟩
  · split at h
    · next h3 =>
        obtain rfl := Option.some.inj h
        exact ⟨Or.inr h3, by decide⟩
    · cases h

/-- Its pages are below the last one. -/
theorem sampleGuardState_below (q : Nat) (hq : (sampleGuardState q).isSome) :
    q + 1 < 2 ^ 52 := by
  obtain ⟨prot, hprot⟩ := Option.isSome_iff_exists.mp hq
  have h := (sampleGuardState_eq hprot).1
  omega

theorem sampleGuardState_access (q : Nat) (prot : NativeProtection)
    (h : sampleGuardState q = some prot) : IsAccess prot :=
  (sampleGuardState_eq h).2

/-- A range that ends on the first byte of the second page. -/
theorem sampleGuardState_mapped :
    ∀ q ∈ rangePages samplePageSize 0x2ff0 0x3001,
      q ∈ (Set.univ : Set Nat) ∧ (sampleGuardState q).isSome := by
  intro q hq
  have hq' := (mem_pagesMeeting samplePageSize.pos_bytes).mp hq
  have hpage : samplePageSize.bytes = 4096 := rfl
  have hfirst : (0x2ff0 : BitVec 64).toNat = 0x2ff0 := rfl
  have hlast : (0x3001 : BitVec 64).toNat = 0x3001 := rfl
  rw [hpage, hfirst, hlast] at hq'
  refine ⟨Set.mem_univ q, ?_⟩
  obtain rfl | rfl : q = 2 ∨ q = 3 := by omega
  · rfl
  · rfl

/-- There the destructor leaves the second page wrong. -/
theorem rangeGuard_destroy_iff_sample :
    ∃ g s', ProtectionGuard.ofRangeRepeating (walkingWindowsSystem sampleGuardState) 0x20
        0x2ff0 0x3001 ⟨1⟩ sampleGuardState = some (.ok g, s')
      ∧ (g.destroy (walkingWindowsSystem sampleGuardState).platform).run s'
        ≠ (.ok (), sampleGuardState) := by
  have hsys := walkingWindowsSystem_conforms sampleGuardState
  have hd := pagewiseWindows_describes (walkingWindows samplePageSize none) sampleGuardState_below
  have hm := sampleGuardState_mapped
  obtain ⟨g, hctor⟩ := ofRangeRepeating_returns 0x2ff0 0x3001 ⟨1⟩ 0x20 hsys hd (by decide) hm
    (by decide) (by decide)
  refine ⟨g, _, hctor, ?_⟩
  intro hback
  have hmatch := (rangeGuard_destroy_iff samplePageSize Set.univ IsAccess
    (walkingWindowsSystem sampleGuardState) sampleGuardState _ 0x2ff0 0x3001 ⟨1⟩ 0x20 g hsys hd
    sampleGuardState_access (by decide) (fun q hq => (hm q hq).1) (fun q hq => (hm q hq).2)
    hctor).2.mp hback
  exact absurd (hmatch (by decide)) (by decide)

/-- Neither does `restore` put it back on macOS. -/
theorem rangeGuard_restore_iff_sample :
    ∃ g s', ProtectionGuard.ofRangeRepeating (walkingOsxSystem sampleGuardState) 0x20
        0x2ff0 0x3001 ⟨1⟩ sampleGuardState = some (.ok g, s')
      ∧ g.restore (walkingOsxSystem sampleGuardState).platform s'
        ≠ ((.ok (), ⟨[]⟩), sampleGuardState) := by
  have hsys := walkingOsxSystem_conforms sampleGuardState
  have hd := pagewiseMach_describes (walkingPosix samplePageSize) sampleGuardState_below
  have hm := sampleGuardState_mapped
  obtain ⟨g, hctor⟩ := ofRangeRepeating_returns 0x2ff0 0x3001 ⟨1⟩ 0x20 hsys hd (by decide) hm
    (by decide) (by decide)
  refine ⟨g, _, hctor, ?_⟩
  intro hback
  have huniform := (rangeGuard_restore_iff samplePageSize Set.univ IsAccess
    (walkingOsxSystem sampleGuardState) sampleGuardState _ 0x2ff0 0x3001 ⟨1⟩ 0x20 g {} hsys hd
    sampleGuardState_access (by decide) (fun q hq => (hm q hq).1) (fun q hq => (hm q hq).2)
    hctor rfl).1.mp hback
  have hpages : rangePages samplePageSize 0x2ff0 0x3001 = _ := rangePages_eq_Icc (by decide)
  exact absurd (huniform 2 (hpages ▸ by decide) 3 (hpages ▸ by decide)) (by decide)

/-- A guard of one page of it, on Windows. -/
theorem pageGuard_restores_sample :
    ∃ g s', (ProtectionGuard.ofPage (walkingWindowsSystem sampleGuardState).platform
        (Queries.repeating (walkingWindowsSystem sampleGuardState).query (.ok []))
        (0x2ff0 : BitVec 64) ⟨1⟩).run sampleGuardState = (.ok g, s')
      ∧ g.restore (walkingWindowsSystem sampleGuardState).platform s'
        = ((.ok (), ⟨[]⟩), sampleGuardState) := by
  have hsys := walkingWindowsSystem_conforms sampleGuardState
  have hd := pagewiseWindows_describes (walkingWindows samplePageSize none) sampleGuardState_below
  have hm : (sampleGuardState ((0x2ff0 : BitVec 64).toNat / samplePageSize.bytes)).isSome := rfl
  obtain ⟨g, hctor⟩ := ofPageRepeating_returns (.ok []) 0x2ff0 ⟨1⟩ hsys hd
    (Set.mem_univ _) hm (by decide)
  have hback := pageGuard_restores samplePageSize Set.univ IsAccess
    (walkingWindowsSystem sampleGuardState) (.ok []) sampleGuardState _ 0x2ff0 ⟨1⟩ g {} hsys hd
    sampleGuardState_access (Set.mem_univ _) hm hctor rfl
  exact ⟨g, _, hctor, hback.2.2.1⟩

end VmUtils
