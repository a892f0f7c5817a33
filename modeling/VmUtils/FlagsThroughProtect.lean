import VmUtils.AccessFlags
import VmUtils.ProtectQuery

/-! # Flags through `protect` and `query`

    A call `protect(begin, end, flags)` converts the flags to a `protection_t`
    first, and `query(...).protection().to_flags()` converts back.  On POSIX the
    flags that the last call on a page has set come back as they are; on Windows
    reading is added to writing (`protectFlags_query`). -/

namespace VmUtils

open Overlay Pages Intervals

namespace GuardOs

/-- `protection_t(flags)`. -/
def ofFlags : GuardOs → Access → Except Exn Protection
  | .linux _, flags => .ok ⟨posixToNative flags⟩
  | .osx _, flags => .ok ⟨posixToNative flags⟩
  | .windows _, flags => (windowsToNative flags).map Protection.mk

/-- `to_flags()`. -/
def toFlags : GuardOs → Protection → Except RangeError Access
  | .linux _, p => .ok (posixFromNative p.native)
  | .osx _, p => .ok (posixFromNative p.native)
  | .windows _, p => windowsFromNative p.native

/-- What `readable()`, `writable()` and `executable()` report. -/
def reportedRights : GuardOs → Protection → Set Right
  | .linux _, p => posixRights p
  | .osx _, p => posixRights p
  | .windows _, p => windowsRights p.native

/-- The flags that come back for given ones. -/
def keptFlags : GuardOs → Access → Access
  | .linux _, flags => flags
  | .osx _, flags => flags
  | .windows _, flags => withRead flags

/-- **Flags through a `protection_t`.** -/
theorem ofFlags_toFlags {os : GuardOs} {flags : Access} {p : Protection}
    (h : os.ofFlags flags = .ok p) :
    os.toFlags p = .ok (os.keptFlags flags)
      ∧ os.reportedRights p = rights (os.keptFlags flags) := by
  cases os with
  | linux os =>
      obtain rfl := Except.ok.inj h
      exact ⟨rfl, posixRights_eq _⟩
  | osx os =>
      obtain rfl := Except.ok.inj h
      exact ⟨rfl, posixRights_eq _⟩
  | windows os =>
      cases hnative : windowsToNative flags with
      | error e =>
          rw [ofFlags, hnative] at h
          cases h
      | ok native =>
          rw [ofFlags, hnative] at h
          obtain rfl := Except.ok.inj h
          obtain ⟨hrights, hback⟩ := windowsToNative_rights hnative
          refine ⟨hback, ?_⟩
          show windowsRights native = rights (withRead flags)
          rw [hrights, rights_withRead]

end GuardOs

/-! ## Calls with flags -/

/-- The arguments of `protect(begin, end, flags)`. -/
structure FlagCall where
  first : BitVec 64
  last : BitVec 64
  flags : Access

/-- The conversion throws before the call. -/
def protectFlags (os : GuardOs) (c : FlagCall) : OsM PageMap Unit := do
  let prot ← os.ofFlags c.flags
  os.platform.protect c.first c.last prot

/-- Calls one after the other. -/
def protectFlagsAll (os : GuardOs) (calls : List FlagCall) : OsM PageMap Unit :=
  calls.forM (protectFlags os)

/-- The call after the conversion. -/
structure Converts (os : GuardOs) (c : FlagCall) (p : ProtectCall) : Prop where
  first_eq : p.first = c.first
  last_eq : p.last = c.last
  prot_eq : os.ofFlags c.flags = .ok p.prot

variable {os : GuardOs} {s s' : PageMap}

theorem protectFlags_eq_ok {c : FlagCall} (h : (protectFlags os c).run s = (.ok (), s')) :
    ∃ p, Converts os c p ∧ (os.platform.protect p.first p.last p.prot).run s = (.ok (), s') := by
  rw [protectFlags] at h
  cases hprot : os.ofFlags c.flags with
  | error e =>
      rw [hprot] at h
      cases h
  | ok prot =>
      rw [hprot, run_except] at h
      exact ⟨⟨c.first, c.last, prot⟩, ⟨rfl, rfl, hprot⟩, h⟩

/-- Calls with flags that return are calls with the converted protections. -/
theorem protectFlagsAll_eq_ok {calls : List FlagCall}
    (h : (protectFlagsAll os calls).run s = (.ok (), s')) :
    ∃ prots, List.Forall₂ (Converts os) calls prots
      ∧ (protectAll os.platform prots).run s = (.ok (), s') := by
  induction calls generalizing s with
  | nil => exact ⟨[], List.Forall₂.nil, h⟩
  | cons c calls ih =>
      obtain ⟨⟨⟩, s₁, hfirst, hrest⟩ := bind_run_eq_ok (show (protectFlags os c
        >>= fun _ => protectFlagsAll os calls).run s = (.ok (), s') from h)
      obtain ⟨p, hp, hcall⟩ := protectFlags_eq_ok hfirst
      obtain ⟨prots, hprots, hrun⟩ := ih hrest
      refine ⟨p :: prots, List.Forall₂.cons hp hprots, ?_⟩
      exact bind_run_ok hcall (fun _ => protectAll os.platform prots) |>.trans hrun

/-- **The flags that `query` reports** behind calls on mapped ranges are those of the
    last call on the page that it answers for: as they are on POSIX, with reading
    added to writing on Windows. -/
theorem protectFlags_query (ps : PageSize) (A : Set Nat) (V : NativeProtection → Prop)
    (os : GuardOs) (s s' : PageMap) (before after : List FlagCall) (c : FlagCall)
    (query : BitVec 64 → Except Exn (BasicRegion 64)) (page : BitVec 64 → Nat) (a : BitVec 64)
    (hos : os.Conforms ps A V)
    (hcalls : ∀ d ∈ before ++ c :: after, d.first ≤ d.last ∧ RangeMapped ps s d.first d.last)
    (hrun : (protectFlagsAll os (before ++ c :: after)).run s = (.ok (), s'))
    (hreads : Reads ps s' os query page) (hm : (s' (a.toNat / ps.bytes)).isSome)
    (hmeets : page a ∈ rangePages ps c.first c.last)
    (hlast : ∀ d ∈ after, page a ∉ rangePages ps d.first d.last) :
    ∃ r, query a = .ok r ∧ os.toFlags r.protection = .ok (os.keptFlags c.flags)
      ∧ os.reportedRights r.protection = rights (os.keptFlags c.flags) := by
  obtain ⟨prots, hconv, hprots⟩ := protectFlagsAll_eq_ok hrun
  have hmapped : ∀ p ∈ prots, p.first ≤ p.last ∧ RangeMapped ps s p.first p.last := by
    intro p hp
    obtain ⟨d, hd, hdp⟩ := exists_of_forall₂ hconv.flip p hp
    rw [hdp.first_eq, hdp.last_eq]
    exact hcalls d hd
  obtain ⟨M, p, M', rfl, -, hp, hM'⟩ := forall₂_cut hconv
  obtain ⟨r, hr, hanswer⟩ := hreads.answers hm
  -- the last write on the page is that of `c`
  have htouch : touching (page a) ((M ++ p :: M').map (ProtectCall.write ps))
      = touching (page a) (M.map (ProtectCall.write ps)) ++ [p.write ps] := by
    have hnone : touching (page a) (M'.map (ProtectCall.write ps)) = [] := by
      refine List.filter_eq_nil_iff.mpr ?_
      intro w hw h
      obtain ⟨d', hd', rfl⟩ := List.mem_map.mp hw
      obtain ⟨d, hd, hdd'⟩ := exists_of_forall₂ hM'.flip d' hd'
      have hin : page a ∈ (ProtectCall.write ps d').cells := by simpa using h
      change page a ∈ rangePages ps d'.first d'.last at hin
      rw [hdd'.first_eq, hdd'.last_eq] at hin
      exact hlast d hd hin
    have hin : page a ∈ (p.write ps).cells := by
      show page a ∈ rangePages ps p.first p.last
      rw [hp.first_eq, hp.last_eq]
      exact hmeets
    rw [List.map_append, List.map_cons, touching_append, touching_cons_of_mem hin, hnone]
  have hnative : r.protection.native = p.prot.native := by
    rw [protectAll_replay hos _ hmapped hprots, replay_apply, htouch,
      List.getLast?_concat] at hanswer
    exact (Option.some.inj hanswer).symm
  refine ⟨r, hr, ?_⟩
  have hprotection : r.protection = p.prot := congrArg Protection.mk hnative
  rw [hprotection]
  exact GuardOs.ofFlags_toFlags hp.prot_eq

/-! ## A call on Windows -/

/-- The walking `VirtualProtect` maps and unmaps nothing. -/
theorem walkingWindows_sameMapped (ps : PageSize) (flush : Option Int) (addr size : BitVec 64)
    (prot : NativeProtection) (s : PageMap) :
    SameMapped ((walkingWindows ps flush).virtualProtect addr size prot s).2 s := by
  have hwalk := mprotectPages_sameMapped prot ((addr.toNat + size.toNat + ps.bytes - 1) / ps.bytes
    - addr.toNat / ps.bytes) (addr.toNat / ps.bytes) s
  show SameMapped (if size = 0 then (some 87, s) else _ : Option Int × PageMap).2 s
  by_cases hsize : size = 0
  · rw [if_pos hsize]
    exact fun _ => rfl
  · rw [if_neg hsize]
    rcases hrun : mprotectPages prot ((addr.toNat + size.toNat + ps.bytes - 1) / ps.bytes
      - addr.toNat / ps.bytes) (addr.toNat / ps.bytes) s with ⟨_ | e, s₁⟩
    · rw [hrun] at hwalk
      exact hwalk
    · exact fun _ => rfl

theorem walkingWindows_touches (ps : PageSize) (flush : Option Int) :
    VirtualProtectTouches ps (walkingWindows ps flush) := by
  intro addr size prot s
  have hspec := walkingWindows_spec ps flush
  have hsame := walkingWindows_sameMapped ps flush addr size prot s
  rcases hcall : (walkingWindows ps flush).virtualProtect addr size prot s with ⟨_ | e, s₁⟩
  · have hset := hspec.sets addr size prot s s₁ hcall
    refine ⟨requested ps addr size, Set.Subset.refl _, ?_, hset⟩
    intro q hq
    have hmapped : (s₁ q).isSome = (s q).isSome := by
      rw [hcall] at hsame
      exact hsame q
    rw [← hmapped, hset, setProt, put_mem hq]
    rfl
  · refine ⟨∅, Set.empty_subset _, fun _ hq => absurd hq (Set.notMem_empty _), ?_⟩
    rw [setProt, put_empty]
    exact hspec.fails addr size prot s e s₁ hcall

theorem walkingWindows_conforms (ps : PageSize) (A : Set Nat) (V : NativeProtection → Prop) :
    (GuardOs.windows (walkingWindows ps none)).Conforms ps A V := by
  refine ⟨⟨rfl, walkingWindows_spec ps none, walkingWindows_accepts ps A V,
    walkingWindows_virtualProtect_code ps none, ?_⟩, walkingWindows_touches ps none⟩
  intro addr size t code h
  cases h

/-- A page set to writing alone comes back with reading. -/
theorem protectFlags_query_sample :
    ∃ s' r, (protectFlagsAll (.windows (walkingWindows samplePageSize none))
          [⟨0x3000, 0x4000, accessWrite⟩]).run sampleGuardState = (.ok (), s')
      ∧ windowsQueryLocal 64 (pagewiseWindows s') (0x3010 : BitVec 64) = .ok r
      ∧ windowsFromNative r.protection.native = .ok 3 := by
  have hos := walkingWindows_conforms samplePageSize Set.univ IsAccess
  have hpages : rangePages samplePageSize 0x3000 0x4000 = Set.Icc 3 3 :=
    rangePages_eq_Icc (by decide)
  have hpage : (3 : Nat) ∈ rangePages samplePageSize 0x3000 0x4000 := by
    rw [hpages]
    exact ⟨Nat.le_refl 3, Nat.le_refl 3⟩
  have hm : RangeMapped samplePageSize sampleGuardState 0x3000 0x4000 := by
    intro q hq
    rw [hpages] at hq
    obtain rfl : q = 3 := Nat.le_antisymm hq.2 hq.1
    rfl
  have hset := hos.setsPages.protect_ok hos.attempts (show (0x3000 : BitVec 64) ≤ 0x4000 by decide)
    (show IsAccess (⟨readwrite⟩ : Protection).native by decide)
    (fun q hq => ⟨Set.mem_univ q, hm q hq⟩)
  have hrun : (protectFlagsAll (.windows (walkingWindows samplePageSize none))
      [⟨0x3000, 0x4000, accessWrite⟩]).run sampleGuardState = (.ok (), _) :=
    bind_run_ok hset (fun _ => (pure () : OsM PageMap Unit))
  have hbelow : ∀ q, (setProt (rangePages samplePageSize 0x3000 0x4000) readwrite
      sampleGuardState q).isSome → q + 1 < 2 ^ 52 := by
    intro q hq
    rw [setProt_isSome hm] at hq
    exact sampleGuardState_below q hq
  have hreads := Reads.repeating _
    (pagewiseWindows_describes (walkingWindows samplePageSize none) hbelow)
  have hthere : (setProt (rangePages samplePageSize 0x3000 0x4000) readwrite sampleGuardState
      ((0x3010 : BitVec 64).toNat / samplePageSize.bytes)).isSome := by
    rw [setProt_isSome hm]
    rfl
  obtain ⟨r, hr, hflags, -⟩ := protectFlags_query samplePageSize Set.univ IsAccess _
    sampleGuardState _ [] [] ⟨0x3000, 0x4000, accessWrite⟩ _ _ 0x3010 hos
    (fun c hc => by
      obtain rfl := List.mem_singleton.mp hc
      exact ⟨by decide, hm⟩) hrun hreads hthere hpage (fun d hd => absurd hd List.not_mem_nil)
  exact ⟨_, r, hrun, hr, hflags⟩

end VmUtils
