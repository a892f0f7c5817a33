import VmUtils.GuardSystems
import VmUtils.GuardNesting
import VmUtils.Lib.ScopeEscapes

/-! # Programs with guards

    A program constructs guards of mapped pages and ranges, other constructors
    throw, it calls `protect` in between, releases guards and destroys the innermost
    one (`GuardProgram`), on Linux, macOS or Windows.  A guard is a scope of its pages
    up to those its destructor leaves wrong (`Opens.spec`).  A `protect` and a
    constructor that throws may ask for any range, also for pages that are not
    mapped; what they have changed by then escapes where no open guard covers it.
    After every run whose guards are destroyed a page holds what it held in the
    beginning, unless it escaped: so, by the release of a guard that no outer one
    covers, or as a page that some destructor leaves wrong (`guardProgram_keeps`). -/

namespace VmUtils

open Overlay Pages RetryStack

/-! ## The systems -/

/-- The systems of the library. -/
inductive GuardOs where
  | linux (os : Posix PageMap)
  | osx (os : Posix PageMap)
  | windows (os : Windows PageMap)

namespace GuardOs

def platform : GuardOs → Platform PageMap
  | .linux os => os.platform
  | .osx os => os.platform
  | .windows os => os.platform

def attempt : GuardOs → Attempt OldProtStorage Failure PageMap
  | .linux os => os.attempt
  | .osx os => os.attempt
  | .windows os => os.attempt

end GuardOs

/-- A system without its queries. -/
def GuardSystem.os : GuardSystem → GuardOs
  | .windows os _ => .windows os
  | .osx os _ => .osx os

theorem GuardSystem.os_platform (sys : GuardSystem) : sys.os.platform = sys.platform := by
  cases sys <;> rfl

/-- What is assumed of any `VirtualProtect`, as `MprotectTouches` of `mprotect`. -/
def VirtualProtectTouches (ps : PageSize) (os : Windows PageMap) : Prop :=
  ∀ addr size prot s, ∃ T ⊆ requested ps addr size, (∀ q ∈ T, (s q).isSome)
    ∧ (os.virtualProtect addr size prot s).2 = setProt T prot s

/-- The system behaves as assumed, on the pages `A` of one allocation and for the
    protections `V`. -/
def GuardOs.Conforms (ps : PageSize) (A : Set Nat) (V : NativeProtection → Prop) : GuardOs → Prop
  | .linux os => MprotectConforms ps V os ∧ MprotectTouches ps os
  | .osx os => MprotectConforms ps V os ∧ MprotectTouches ps os
  | .windows os => WindowsConforms ps A V os ∧ VirtualProtectTouches ps os

variable {ps : PageSize} {A : Set Nat} {V : NativeProtection → Prop} {s s' t : PageMap}
  {os : GuardOs} {first last : BitVec 64} {new : Protection} {g : ProtectionGuard}

theorem GuardOs.Conforms.attempts (h : os.Conforms ps A V) : os.platform.Attempts os.attempt := by
  cases os with
  | linux os => exact os.platform_attempts (MprotectConforms.errno h.1)
  | osx os => exact os.platform_attempts (MprotectConforms.errno h.1)
  | windows os =>
      exact os.platform_attempts (WindowsConforms.protect_code h.1) (WindowsConforms.flush_code h.1)

/-! ## What a call can change -/

/-- The pages whose protection differs. -/
def changed (s s' : PageMap) : Set Nat := {q | s' q ≠ s q}

/-- Only pages of `S` have changed, and the same pages are mapped. -/
structure ChangesOnly (S : Set Nat) (s s' : PageMap) : Prop where
  frame : ∀ q, q ∉ S → s' q = s q
  mapped : SameMapped s' s

theorem changesOnly_setProt {S T : Set Nat} (hT : T ⊆ S) (hm : ∀ q ∈ T, (s q).isSome)
    (prot : NativeProtection) : ChangesOnly S s (setProt T prot s) :=
  ⟨fun _ hq => put_not_mem (fun h => hq (hT h)) _ _, setProt_isSome hm prot⟩

/-- A call that sets no page. -/
theorem setProt_none (prot : NativeProtection) (s : PageMap) : s = setProt ∅ prot s := by
  rw [setProt, put_empty]

/-- **Whatever becomes of a call**, it sets some mapped pages, which are pages of its
    range if the bounds are in order. -/
theorem GuardOs.Conforms.attempt_sets (h : os.Conforms ps A V) (x : OldProtStorage)
    (s : PageMap) :
    ∃ T, (∀ q ∈ T, (s q).isSome) ∧ (os.attempt x s).2 = setProt T x.prot s
      ∧ (x.beginAddr ≤ x.endAddr → T ⊆ (entryWrite ps x).cells) := by
  have hnothing : ∃ T, (∀ q ∈ T, (s q).isSome) ∧ s = setProt T x.prot s
      ∧ (x.beginAddr ≤ x.endAddr → T ⊆ (entryWrite ps x).cells) :=
    ⟨∅, fun _ hq => absurd hq (Set.notMem_empty _), setProt_none x.prot s,
      fun _ => Set.empty_subset _⟩
  have hposix : ∀ os : Posix PageMap, MprotectConforms ps V os → MprotectTouches ps os →
      ∃ T, (∀ q ∈ T, (s q).isSome) ∧ (os.attempt x s).2 = setProt T x.prot s
        ∧ (x.beginAddr ≤ x.endAddr → T ⊆ (entryWrite ps x).cells) := by
    intro os hos htouch
    rw [Posix.attempt]
    split
    · exact hnothing
    · next hne =>
        obtain ⟨T, hT, hm, hset⟩ := htouch _ (x.endAddr - (x.beginAddr &&& -os.pageSize)) x.prot s
          (roundDown_dvd hos.sets.pageSize_eq x.beginAddr)
        have hsnd : ∀ r : Option Int × PageMap, (mprotectFailure r).2 = r.2 := by
          rintro ⟨_ | errno, s'⟩
          · rfl
          · rfl
        refine ⟨T, hm, (hsnd _).trans hset, ?_⟩
        intro hle
        rw [requested_roundDown hos.sets.pageSize_eq hne (Or.inl hle)] at hT
        exact hT
  cases os with
  | linux os => exact hposix os h.1 h.2
  | osx os => exact hposix os h.1 h.2
  | windows os =>
      obtain ⟨hos, htouch⟩ := h
      show ∃ T, _ ∧ (os.attempt x s).2 = _ ∧ _
      rw [Windows.attempt]
      split
      · exact hnothing
      · obtain ⟨T, hT, hm, hset⟩ := htouch x.beginAddr (x.endAddr - x.beginAddr) x.prot s
        -- the flush of the instruction cache changes no protection
        have hflush : ∀ r : Option Int × PageMap, (virtualProtectFailure (os.flushInstructionCache
            x.beginAddr (x.endAddr - x.beginAddr)) r).2 = r.2 := by
          rintro ⟨_ | code, s₁⟩
          · have hkeep := hos.sets.flush x.beginAddr (x.endAddr - x.beginAddr) s₁
            show (flushFailure (os.flushInstructionCache _ _ s₁)).2 = s₁
            rcases hfl : os.flushInstructionCache x.beginAddr (x.endAddr - x.beginAddr) s₁
              with ⟨_ | code, s₂⟩
            · rw [hfl] at hkeep
              exact hkeep
            · rw [hfl] at hkeep
              exact hkeep
          · rfl
        refine ⟨T, hm, (hflush _).trans hset, ?_⟩
        intro hle
        rw [requested_sub hle] at hT
        exact hT

/-- So does `protect`, in both overloads. -/
theorem GuardOs.Conforms.protect_sets (h : os.Conforms ps A V) (first last : BitVec 64)
    (prot : Protection) (ec : ErrorCode) (s : PageMap) :
    ∃ T, (∀ q ∈ T, (s q).isSome)
      ∧ ((os.platform.protect first last prot).run s).2 = setProt T prot.native s
      ∧ ((os.platform.protectEc first last prot ec).run s).2 = setProt T prot.native s
      ∧ (first ≤ last → T ⊆ rangePages ps first last) := by
  obtain ⟨T, hm, hset, hT⟩ := h.attempt_sets ⟨first, last, prot.native⟩ s
  have hrun := h.attempts.protect_run ⟨first, last, prot.native⟩ s
  have hrunEc := h.attempts.protectEc_run ⟨first, last, prot.native⟩ ec s
  exact ⟨T, hm, (congrArg Prod.snd hrun).trans hset, (congrArg Prod.snd hrunEc).trans hset, hT⟩

/-- The state behind a `protect`. -/
theorem GuardOs.Conforms.protect_leaves (h : os.Conforms ps A V) (hle : first ≤ last)
    {prot : Protection} {r : Except Exn Unit}
    (hrun : (os.platform.protect first last prot).run s = (r, s')) :
    ChangesOnly (rangePages ps first last) s s' := by
  obtain ⟨T, hm, hset, -, hT⟩ := h.protect_sets first last prot {} s
  rw [hrun] at hset
  obtain rfl : s' = setProt T prot.native s := hset
  exact changesOnly_setProt (hT hle) hm _

/-- It has the same pages mapped, whatever the bounds. -/
theorem GuardOs.Conforms.protect_sameMapped (h : os.Conforms ps A V) {prot : Protection}
    {r : Except Exn Unit} (hrun : (os.platform.protect first last prot).run s = (r, s')) :
    SameMapped s' s := by
  obtain ⟨T, hm, hset, -, -⟩ := h.protect_sets first last prot {} s
  rw [hrun] at hset
  obtain rfl : s' = setProt T prot.native s := hset
  exact setProt_isSome hm _

theorem GuardOs.Conforms.protectEc_sameMapped (h : os.Conforms ps A V) (first last : BitVec 64)
    (prot : Protection) (ec : ErrorCode) (s : PageMap) :
    SameMapped ((os.platform.protectEc first last prot ec).run s).2 s := by
  obtain ⟨T, hm, -, hset, -⟩ := h.protect_sets first last prot ec s
  rw [hset]
  exact setProt_isSome hm _

/-! ## Constructors that throw -/

/-- A call of a constructor on the system, for any range or page and whatever its
    queries answer. -/
inductive ConstructorCall (os : GuardOs) : OsM PageMap ProtectionGuard → Prop
  | range (Q : Queries) (first last : BitVec 64) (new : Protection) :
      ConstructorCall os (ProtectionGuard.ofRange os.platform Q first last new)
  | page (Q : Queries) (address : BitVec 64) (new : Protection) :
      ConstructorCall os (ProtectionGuard.ofPage os.platform Q address new)

/-- A single-page constructor throws because its query or its `protect` does. -/
theorem ofPage_eq_error {P : Platform PageMap} {Q : Queries} {address : BitVec 64} {ex : Exn}
    (h : (ProtectionGuard.ofPage P Q address new).run s = (.error ex, s')) :
    s' = s ∨ (P.protectPage address new).run s = (.error ex, s') := by
  rcases bind_run_eq_error h with hquery | ⟨old, s₁, hquery, hrest⟩
  · have hquery' : (Q.query address, s) = (.error ex, s') := hquery
    exact Or.inl (Prod.mk.inj hquery').2.symm
  · -- the query has changed nothing, and behind `protect` nothing throws
    have hquery' : (Q.query address, s) = (.ok old, s₁) := hquery
    obtain rfl := (Prod.mk.inj hquery').2
    rcases bind_run_eq_error hrest with hprotect | ⟨⟨⟩, s₂, -, hlast⟩
    · exact Or.inr hprotect
    · cases (Prod.mk.inj (show (Except.ok _, s₂) = (Except.error ex, s') from hlast)).1

/-- **A constructor that throws** has mapped and unmapped nothing. -/
theorem ConstructorCall.throws_sameMapped {ctor : OsM PageMap ProtectionGuard}
    (h : ConstructorCall os ctor) (hos : os.Conforms ps A V) {ex : Exn}
    (hrun : ctor.run s = (.error ex, s')) : SameMapped s' s := by
  cases h with
  | range Q first last new =>
      rcases ofRange_eq_error hrun with ⟨-, rfl⟩ | hprotect
      · exact fun _ => rfl
      · exact hos.protect_sameMapped hprotect
  | page Q address new =>
      rcases ofPage_eq_error hrun with rfl | hprotect
      · exact fun _ => rfl
      · exact hos.protect_sameMapped hprotect

/-! ## Open guards -/

/-- A guard, the pages it has been constructed for, and those of them that its
    destructor leaves wrong. -/
structure OpenGuard where
  guard : ProtectionGuard
  pages : Set Nat
  spoiled : Set Nat

/-- The pages of all guards. -/
def guarded (gs : List OpenGuard) : Set Nat := {q | ∃ o ∈ gs, q ∈ o.pages}

/-- `alloc` is the allocation of a page; on Windows a protection is set inside one. -/
def GuardOs.Within (alloc : Nat → Nat) (S : Set Nat) : GuardOs → Prop
  | .windows _ => ∃ k, ∀ q ∈ S, alloc q = k
  | _ => True

/-- The constructors of a guard whose queries describe the state `s`, with its
    pages and those it leaves wrong. -/
inductive Opens (ps : PageSize) (alloc : Nat → Nat) (V : NativeProtection → Prop) (s : PageMap) :
    GuardOs → OsM PageMap ProtectionGuard → Set Nat → Set Nat → Prop
  /-- `protection_guard(begin, end, new_protection)` on Linux -/
  | linuxRange (os : Posix PageMap) (proc : Process) (u : Uninit) (L : Listing)
      (first last : BitVec 64) (new : Protection) (hd : Describes ps L s)
      (hopen : proc.openFile (mapsPath proc.getpid) = some L.text) (hle : first ≤ last)
      (hm : RangeMapped ps s first last) :
      Opens ps alloc V s (.linux os)
        (ProtectionGuard.ofRange os.platform (linuxQueries proc u) first last new)
        (rangePages ps first last) ∅
  /-- `protection_guard(address, new_protection)` on Linux -/
  | linuxPage (os : Posix PageMap) (proc : Process) (u : Uninit) (L : Listing)
      (address : BitVec 64) (new : Protection) (hd : Describes ps L s)
      (hopen : proc.openFile (mapsPath proc.getpid) = some L.text)
      (hm : (s (address.toNat / ps.bytes)).isSome) :
      Opens ps alloc V s (.linux os)
        (ProtectionGuard.ofPage os.platform (linuxQueries proc u) address new)
        {address.toNat / ps.bytes} {q | q = address.toNat / ps.bytes ∧ ¬ EndsMatch L address}
  /-- the range constructor on Windows and macOS -/
  | range (sys : GuardSystem) (fuel : Nat) (regions : Except Exn (List (BasicRegion 64)))
      (first last : BitVec 64) (new : Protection) (hd : sys.Describes ps s)
      (hV : ∀ q prot, s q = some prot → V prot) (hle : first ≤ last)
      (hm : RangeMapped ps s first last) (hw : sys.os.Within alloc (rangePages ps first last))
      (hloop : queryRangeUsingQuery (fun x : BitVec 64 => sys.query x) fuel first last
        = some regions) :
      Opens ps alloc V s sys.os (ProtectionGuard.ofRange sys.platform
        (Queries.repeating sys.query regions) first last new) (rangePages ps first last)
        {q | q = (last.toNat - 1) / ps.bytes ∧ ¬ LastTwoMatch ps s first last}
  /-- the single-page constructor there -/
  | page (sys : GuardSystem) (regions : Except Exn (List (BasicRegion 64)))
      (address : BitVec 64) (new : Protection) (hd : sys.Describes ps s)
      (hV : ∀ q prot, s q = some prot → V prot) (hm : (s (address.toNat / ps.bytes)).isSome)
      (hw : sys.os.Within alloc {address.toNat / ps.bytes}) :
      Opens ps alloc V s sys.os
        (ProtectionGuard.ofPage sys.platform (Queries.repeating sys.query regions) address new)
        {address.toNat / ps.bytes} ∅

/-- The guard acts as the scope: on every state with the pages of `s` mapped its
    destructor puts the saved state back on the cells, up to the spoiled ones. -/
structure ActsUpTo (os : GuardOs) (s : PageMap) (o : OpenGuard)
    (f : Scope Nat (Option NativeProtection)) : Prop where
  cells : f.cells = o.pages
  saved : SameMapped f.saved s
  destroy : ∀ t, SameMapped t s → ∃ t', (o.guard.destroy os.platform).run t = (.ok (), t')
    ∧ SameMapped t' t ∧ ∀ q, q ∉ o.spoiled → t' q = put f.cells f.saved t q

theorem SameMapped.trans {u : PageMap} (h : SameMapped s t) (h' : SameMapped t u) :
    SameMapped s u := fun q => (h q).trans (h' q)

theorem SameMapped.symm (h : SameMapped s t) : SameMapped t s := fun q => (h q).symm

/-- Only which pages are mapped matters. -/
theorem ActsUpTo.congr {o : OpenGuard} {f : Scope Nat (Option NativeProtection)}
    (h : ActsUpTo os s o f) (hs : SameMapped s' s) : ActsUpTo os s' o f :=
  ⟨h.cells, h.saved.trans hs.symm, fun t ht => h.destroy t (ht.trans hs)⟩

/-- Writing entries of mapped pages maps and unmaps nothing. -/
theorem sameMapped_replay {old : List OldProtStorage}
    (hold : ∀ e ∈ old, ∀ q ∈ (entryWrite ps e).cells, (t q).isSome) :
    SameMapped (replay (old.map (entryWrite ps)) t) t := by
  induction old generalizing t with
  | nil => exact fun _ => rfl
  | cons e old ih =>
      have hset := setProt_isSome (hold e (List.mem_cons_self ..)) e.prot
      rw [List.map_cons, replay_cons]
      refine SameMapped.trans (ih ?_) hset
      intro e' he' q hq
      exact isSome_apply e (hold e' (List.mem_cons_of_mem _ he') q hq)

/-! ## The destructors -/

/-- The destructor of a range guard on Linux. -/
theorem linuxRange_acts {os : Posix PageMap} {L : Listing} (hos : MprotectSpec ps os)
    (hd : Describes ps L s) (hle : first ≤ last) (hm : RangeMapped ps s first last) :
    ActsUpTo (.linux os) s ⟨⟨rangeEntries L first last⟩, rangePages ps first last, ∅⟩
      ⟨rangePages ps first last, s⟩ := by
  have hact := ofRange_actsAs hos hd hle hm
  refine ⟨rfl, hact.saved, ?_⟩
  intro t ht
  refine ⟨_, hact.destroy t ht, ?_, fun _ _ => rfl⟩
  exact SameMapped.put _ ht.symm (fun _ => rfl)

/-- The destructor of a single-page guard on Linux. -/
theorem linuxPage_acts {os : Posix PageMap} {L : Listing} {address : BitVec 64}
    (hos : MprotectSpec ps os) (hd : Describes ps L s)
    (hm : (s (address.toNat / ps.bytes)).isSome) {l : MapsLine} (hl : l ∈ L.lines)
    (hc : l.Contains address) :
    ActsUpTo (.linux os) s ⟨⟨[pageEntry os L address]⟩, {address.toNat / ps.bytes},
        {q | q = address.toNat / ps.bytes ∧ ¬ EndsMatch L address}⟩
      ⟨{address.toNat / ps.bytes}, s⟩ := by
  have hcells : (entryWrite ps (pageEntry os L address)).cells = {address.toNat / ps.bytes} :=
    rangePages_fixedAddress hos address
  refine ⟨rfl, fun _ => rfl, ?_⟩
  intro t ht
  have hmapped : ∀ q ∈ (entryWrite ps (pageEntry os L address)).cells, (t q).isSome := by
    intro q hq
    rw [hcells] at hq
    rw [Set.mem_singleton_iff.mp hq, ht]
    exact hm
  have hreplay : ∀ e ∈ [pageEntry os L address], Replayable ps t e := by
    intro e he
    obtain rfl := List.mem_singleton.mp he
    exact ⟨pageEntry_bounds hos address, pageEntry_rwx hl hc, hmapped⟩
  refine ⟨_, destroy_run hos hreplay, ?_, ?_⟩
  · refine sameMapped_replay ?_
    intro e he
    obtain rfl := List.mem_singleton.mp he
    exact hmapped
  · intro q hq
    show (entryWrite ps (pageEntry os L address)).apply t q = put _ s t q
    rw [Write.apply, hcells]
    by_cases hpage : q ∈ ({address.toNat / ps.bytes} : Set Nat)
    · obtain rfl := Set.mem_singleton_iff.mp hpage
      have hends : EndsMatch L address := by
        by_contra hne
        exact hq ⟨rfl, hne⟩
      -- with matching ends the entry has saved what the page held
      have hback := congrFun ((pageEntry_apply_iff hos hd hl hc 0).mpr hends)
        (address.toNat / ps.bytes)
      rw [Write.apply, hcells, put_mem hpage] at hback
      rw [put_mem hpage, put_mem hpage]
      exact hback
    · rw [put_not_mem hpage, put_not_mem hpage]

/-- In front of the last page the entries put back what the state holds. -/
theorem Collected.replay_eq_put {rs : List (BasicRegion 64)}
    (hrs : Collected ps s last first rs) (hlt : first < last) {q : Nat}
    (hlast : q ≠ (last.toNat - 1) / ps.bytes) :
    replay ((rs.map (savedEntry first last)).map (entryWrite ps)) t q
      = put (rangePages ps first last) s t q := by
  have hne : rs ≠ [] := by
    rintro rfl
    cases hrs with
    | stop hstop => exact hstop hlt
  have hreach := hrs.last_le hne
  have hb : (last.toNat - 1) / ps.bytes
      ≤ Runs.reached (first.toNat / ps.bytes) (rs.map (pageRun ps)) :=
    (Nat.div_le_div_right (by omega)).trans (Nat.le_of_eq (Nat.mul_div_cancel _ ps.pos_bytes))
  rw [hrs.entries (Nat.le_refl _), rangePages_eq_Icc hlt]
  by_cases hin : first.toNat / ps.bytes ≤ q ∧ q ≤ (last.toNat - 1) / ps.bytes
  · rw [put_mem (show q ∈ Set.Icc _ _ from hin)]
    exact Runs.replay_front hrs.enteredAt (Nat.le_refl _) (fun _ h1 h2 => by omega) hin.1
      hin.2 (by omega)
  · rw [put_not_mem (show q ∉ Set.Icc _ _ from hin), Runs.replay_outside hin]

/-- The destructor of a range guard on Windows and macOS. -/
theorem Collected.acts {sys : GuardSystem} (hsys : sys.Conforms ps A V)
    {rs : List (BasicRegion 64)} (hrs : Collected ps s last first rs) (hle : first ≤ last)
    (hV : ∀ q prot, s q = some prot → V prot) (hA : ∀ q ∈ rangePages ps first last, q ∈ A)
    (hm : RangeMapped ps s first last) :
    ActsUpTo sys.os s ⟨⟨rs.map (savedEntry first last)⟩, rangePages ps first last,
        {q | q = (last.toNat - 1) / ps.bytes ∧ ¬ LastTwoMatch ps s first last}⟩
      ⟨rangePages ps first last, s⟩ := by
  refine ⟨rfl, fun _ => rfl, ?_⟩
  intro t ht
  rw [sys.os_platform]
  by_cases hlt : first < last
  · have hmt : RangeMapped ps t first last := by
      intro q hq
      rw [ht]
      exact hm q hq
    have hold := hrs.restorable (Nat.le_refl _) hlt hV hA hmt
    obtain ⟨t', hrun, hiff⟩ := hrs.destroy_iff hsys hlt hV hA hmt
    have ht' : t' = replay ((rs.map (savedEntry first last)).map (entryWrite ps)) t :=
      (Prod.mk.inj (hrun.symm.trans (hsys.setsPages.destroy_run hsys.attempts hold))).2
    refine ⟨t', hrun, ?_, ?_⟩
    · rw [ht']
      exact sameMapped_replay (fun e he q hq => ((hold e he).mapped q hq).2)
    · intro q hq
      by_cases hmatch : LastTwoMatch ps s first last
      · rw [hiff.mpr hmatch]
      · rw [ht']
        exact hrs.replay_eq_put hlt (fun h => hq ⟨h, hmatch⟩)
  · obtain rfl : first = last := by bv_omega
    obtain rfl := hrs.eq_nil (Nat.lt_irrefl _)
    refine ⟨t, destroy_empty _ t, fun _ => rfl, ?_⟩
    intro q _
    show t q = put (rangePages ps first first) s t q
    rw [rangePages_self, put_empty]

/-- The destructor of a single-page guard there. -/
theorem repeatingPage_acts {sys : GuardSystem} (hsys : sys.Conforms ps A V)
    {e : OldProtStorage} {page : Nat} (hbounds : e.beginAddr < e.endAddr)
    (hcells : (entryWrite ps e).cells = {page}) (hprot : s page = some e.prot)
    (hV : ∀ q prot, s q = some prot → V prot) (hA : page ∈ A) :
    ActsUpTo sys.os s ⟨⟨[e]⟩, {page}, ∅⟩ ⟨{page}, s⟩ := by
  refine ⟨rfl, fun _ => rfl, ?_⟩
  intro t ht
  have hpage : (t page).isSome := by
    rw [ht, hprot]
    rfl
  have hold := pageEntry_restorable hbounds hcells hprot hV hA hpage
  rw [sys.os_platform]
  refine ⟨_, hsys.setsPages.destroy_run hsys.attempts hold, ?_, ?_⟩
  · exact sameMapped_replay (fun e' he' q hq => ((hold e' he').mapped q hq).2)
  · intro q _
    exact congrFun (replay_pageEntry hcells hprot t) q

/-! ## The constructors -/

/-- A system with queries behaves as the one without. -/
theorem GuardOs.Conforms.system {sys : GuardSystem} (h : sys.os.Conforms ps A V) :
    sys.Conforms ps A V := by
  cases sys with
  | windows os memory => exact h.1
  | osx os memory => exact h.1

/-- Inside one allocation a system behaves as assumed. -/
theorem GuardOs.Within.system {alloc : Nat → Nat} {sys : GuardSystem} {S : Set Nat}
    (hw : sys.os.Within alloc S) (hos : ∀ k, sys.os.Conforms ps {q | alloc q = k} V) :
    ∃ A, (∀ q ∈ S, q ∈ A) ∧ sys.Conforms ps A V := by
  cases sys with
  | windows os memory =>
      obtain ⟨k, hk⟩ := hw
      exact ⟨_, hk, (hos k).system⟩
  | osx os memory => exact ⟨Set.univ, fun q _ => Set.mem_univ q, (hos 0).1⟩

/-- **What a constructor that returns has done**: it has changed pages of the guard
    only, and the guard acts as their scope. -/
theorem Opens.spec {alloc : Nat → Nat} {ctor : OsM PageMap ProtectionGuard} {S W : Set Nat}
    (h : Opens ps alloc V s os ctor S W) (hos : ∀ k, os.Conforms ps {q | alloc q = k} V)
    (hrun : ctor.run s = (.ok g, s')) : ChangesOnly S s s' ∧ ActsUpTo os s ⟨g, S, W⟩ ⟨S, s⟩ := by
  cases h with
  | linuxRange os proc u L first last new hd hopen hle hm =>
      have hspec := (hos 0).1.sets
      obtain ⟨rfl, -⟩ := ofRange_eq_ok hopen hrun
      rw [ofRange_state hspec hopen hle hm hrun]
      exact ⟨changesOnly_setProt (Set.Subset.refl _) hm _, linuxRange_acts hspec hd hle hm⟩
  | linuxPage os proc u L address new hd hopen hm =>
      have hspec := (hos 0).1.sets
      obtain ⟨l, hl, hp⟩ := hd.listed _ hm
      have hc : l.Contains address :=
        (hasPage_div_iff (hd.aligned.begin_dvd l hl) (hd.aligned.end_dvd l hl) _).mp hp
      have hle : fixedAddress os address ≤ fixedAddress os address + 1 := by
        have htop : (fixedAddress os address).toNat + 1 < 2 ^ 64 :=
          ps.succ_lt (roundDown_dvd hspec.pageSize_eq address)
        bv_omega
      obtain ⟨rfl, hprotect⟩ := ofPage_eq_ok hopen hl hc hrun
      have hleaves := (hos 0).protect_leaves hle hprotect
      rw [rangePages_fixedAddress hspec address] at hleaves
      exact ⟨hleaves, linuxPage_acts hspec hd hm hl hc⟩
  | range sys fuel regions first last new hd hV hle hm hw hloop =>
      obtain ⟨A, hA, hsys⟩ := hw.system hos
      have hctor : ProtectionGuard.ofRangeRepeating sys fuel first last new s
          = some (.ok g, s') := by
        rw [ProtectionGuard.ofRangeRepeating, hloop]
        exact congrArg some hrun
      obtain ⟨rs, hrs, rfl, rfl⟩ := ofRangeRepeating_eq_ok hsys hd hle hm hctor
      exact ⟨changesOnly_setProt (Set.Subset.refl _) hm _, hrs.acts hsys hle hV hA hm⟩
  | page sys regions address new hd hV hm hw =>
      obtain ⟨A, hA, hsys⟩ := hw.system hos
      obtain ⟨rfl, e, rfl, hbounds, hcells, hprot⟩ := ofPageRepeating_eq_ok hsys hd hm hrun
      refine ⟨changesOnly_setProt (Set.Subset.refl _) ?_ _,
        repeatingPage_acts hsys hbounds hcells hprot hV (hA _ rfl)⟩
      intro q hq
      rw [Set.mem_singleton_iff.mp hq]
      exact hm

/-! ## Programs -/

/-- A step of a program with guards, and the pages that escape in it; the innermost
    guard is the head of the list. -/
inductive GuardProgram (ps : PageSize) (alloc : Nat → Nat) (V : NativeProtection → Prop)
    (os : GuardOs) :
    List OpenGuard × PageMap → Set Nat → List OpenGuard × PageMap → Prop
  /-- a constructor that returns a guard of mapped pages -/
  | construct (gs : List OpenGuard) (s s' : PageMap) (ctor : OsM PageMap ProtectionGuard)
      (S W : Set Nat) (g : ProtectionGuard) (hopens : Opens ps alloc V s os ctor S W)
      (hrun : ctor.run s = (.ok g, s')) :
      GuardProgram ps alloc V os (gs, s) ∅ (⟨g, S, W⟩ :: gs, s')
  /-- any constructor that throws: there is no guard of what it has changed -/
  | throws (gs : List OpenGuard) (s s' : PageMap) (ctor : OsM PageMap ProtectionGuard)
      (ex : Exn) (hcall : ConstructorCall os ctor) (hrun : ctor.run s = (.error ex, s')) :
      GuardProgram ps alloc V os (gs, s) (changed s s' \ guarded gs) (gs, s')
  /-- `protect(begin, end, prot)`, returning or throwing -/
  | protect (gs : List OpenGuard) (s : PageMap) (first last : BitVec 64) (prot : Protection) :
      GuardProgram ps alloc V os (gs, s)
        (changed s ((os.platform.protect first last prot).run s).2 \ guarded gs)
        (gs, ((os.platform.protect first last prot).run s).2)
  | protectEc (gs : List OpenGuard) (s : PageMap) (first last : BitVec 64) (prot : Protection)
      (ec : ErrorCode) :
      GuardProgram ps alloc V os (gs, s)
        (changed s ((os.platform.protectEc first last prot ec).run s).2 \ guarded gs)
        (gs, ((os.platform.protectEc first last prot ec).run s).2)
  /-- `release()` of any guard, which stays as an object -/
  | release (gs : List OpenGuard) (o : OpenGuard) (gs' : List OpenGuard) (s : PageMap) :
      GuardProgram ps alloc V os (gs ++ o :: gs', s) (o.pages \ guarded gs')
        (gs ++ ⟨o.guard.release, ∅, ∅⟩ :: gs', s)
  | destroy (o : OpenGuard) (gs : List OpenGuard) (s : PageMap) :
      GuardProgram ps alloc V os (o :: gs, s) (o.spoiled \ guarded gs)
        (gs, ((o.guard.destroy os.platform).run s).2)

/-- A run, with all the pages that escape in it. -/
inductive GuardProgramRun (ps : PageSize) (alloc : Nat → Nat) (V : NativeProtection → Prop)
    (os : GuardOs) (c : List OpenGuard × PageMap) :
    Set Nat → List OpenGuard × PageMap → Prop
  | refl : GuardProgramRun ps alloc V os c ∅ c
  | tail {E E' : Set Nat} {c' c'' : List OpenGuard × PageMap}
      (run : GuardProgramRun ps alloc V os c E c')
      (step : GuardProgram ps alloc V os c' E' c'') :
      GuardProgramRun ps alloc V os c (E ∪ E') c''

/-- The open guards act as the open scopes. -/
def GuardsAct (os : GuardOs) (c : List OpenGuard × PageMap)
    (fs : List (Scope Nat (Option NativeProtection))) : Prop :=
  List.Forall₂ (ActsUpTo os c.2) c.1 fs

theorem GuardsAct.congr {gs : List OpenGuard} {fs : List (Scope Nat (Option NativeProtection))}
    (h : GuardsAct os (gs, s) fs) (hs : SameMapped s' s) : GuardsAct os (gs, s') fs :=
  h.imp (fun _ _ hact => hact.congr hs)

/-- Guards and scopes cover the same pages. -/
theorem GuardsAct.covered_eq {gs : List OpenGuard}
    {fs : List (Scope Nat (Option NativeProtection))} (h : GuardsAct os (gs, s) fs) :
    covered fs = guarded gs := by
  have hall : List.Forall₂ (ActsUpTo os s) gs fs := h
  induction hall with
  | nil => simp [covered, guarded]
  | @cons o f gs fs hact hrest ih =>
      ext q
      show (∃ f' ∈ f :: fs, q ∈ f'.cells) ↔ ∃ o' ∈ o :: gs, q ∈ o'.pages
      rw [List.exists_mem_cons_iff, List.exists_mem_cons_iff, hact.cells]
      exact or_congr Iff.rfl (Set.ext_iff.mp (ih hrest) q)

/-- A released guard acts as the scope of no page. -/
theorem released_acts {o : OpenGuard} {f : Scope Nat (Option NativeProtection)}
    (h : ActsUpTo os s o f) :
    ActsUpTo os s ⟨o.guard.release, ∅, ∅⟩ ⟨∅, f.saved⟩ := by
  refine ⟨rfl, h.saved, ?_⟩
  intro t _
  refine ⟨t, destroy_empty _ t, fun _ => rfl, ?_⟩
  intro q _
  show t q = put ∅ f.saved t q
  rw [put_empty]

/-- **A step of the program is a step of its scopes**, in which the same pages
    escape. -/
theorem guardProgram_refines {alloc : Nat → Nat}
    (hos : ∀ k, os.Conforms ps {q | alloc q = k} V) {c c' : List OpenGuard × PageMap}
    {E : Set Nat} (h : GuardProgram ps alloc V os c E c')
    {fs : List (Scope Nat (Option NativeProtection))} (hfs : GuardsAct os c fs) :
    ∃ fs', Escapes (fs, c.2) E (fs', c'.2) ∧ GuardsAct os c' fs' := by
  -- without a guard of its own a change escapes where no open guard covers it
  have hwrites : ∀ {gs : List OpenGuard} {s s' : PageMap}, SameMapped s' s →
      GuardsAct os (gs, s) fs →
      ∃ fs', Escapes (fs, s) (changed s s' \ guarded gs) (fs', s') ∧ GuardsAct os (gs, s') fs' := by
    intro gs s s' hmapped hact
    refine ⟨fs, ?_, hact.congr hmapped⟩
    rw [← hact.covered_eq]
    exact Escapes.write fs s _ s' (fun _ hq => not_not.mp hq)
  cases h with
  | construct gs s s' ctor S W g hopens hrun =>
      obtain ⟨hchange, hact⟩ := hopens.spec hos hrun
      -- the scope saves the state that the constructor has read
      refine ⟨⟨S, s⟩ :: fs, Escapes.enter fs s S s' hchange.frame, ?_⟩
      exact List.Forall₂.cons (hact.congr hchange.mapped) (hfs.congr hchange.mapped)
  | throws gs s s' ctor ex hcall hrun => exact hwrites (hcall.throws_sameMapped (hos 0) hrun) hfs
  | protect gs s first last prot => exact hwrites ((hos 0).protect_sameMapped rfl) hfs
  | protectEc gs s first last prot ec =>
      exact hwrites ((hos 0).protectEc_sameMapped first last prot ec s) hfs
  | release gs o gs' s =>
      obtain ⟨hs, f, hs', rfl, hgs, hact, hgs'⟩ := Intervals.forall₂_cut hfs
      have hcov : covered hs' = guarded gs' := GuardsAct.covered_eq (s := s) hgs'
      -- only the guards outside it still cover its pages
      refine ⟨hs ++ ⟨∅, f.saved⟩ :: hs', ?_, ?_⟩
      · rw [← hact.cells, ← hcov]
        exact Escapes.abandon hs f hs' s
      · exact List.rel_append hgs (List.Forall₂.cons (released_acts hact) hgs')
  | destroy o gs s =>
      cases hfs with
      | @cons _ f _ fs hact hrest =>
          have hrest' : GuardsAct os (gs, s) fs := hrest
          obtain ⟨t, hrun, hmapped, hback⟩ := hact.destroy s (fun _ => rfl)
          rw [hrun, ← hrest'.covered_eq]
          exact ⟨fs, Escapes.leave f fs s _ t hback, hrest'.congr hmapped⟩

/-- A run of the program is a run of its scopes. -/
theorem guardProgramRun_refines {alloc : Nat → Nat}
    (hos : ∀ k, os.Conforms ps {q | alloc q = k} V) {c : List OpenGuard × PageMap}
    {E : Set Nat} (h : GuardProgramRun ps alloc V os ([], s) E c) :
    ∃ fs, EscapeRun ([], s) E (fs, c.2) ∧ GuardsAct os c fs := by
  induction h with
  | refl => exact ⟨[], EscapeRun.refl, List.Forall₂.nil⟩
  | tail _ hstep ih =>
      obtain ⟨fs, hrun, hfs⟩ := ih
      obtain ⟨fs', hmove, hfs'⟩ := guardProgram_refines hos hstep hfs
      exact ⟨fs', hrun.tail hmove, hfs'⟩

/-- **Programs with guards** keep every page that does not escape: after any run
    that has destroyed its guards the page is as it was. -/
theorem guardProgram_keeps (ps : PageSize) (alloc : Nat → Nat) (V : NativeProtection → Prop)
    (os : GuardOs) (s s' : PageMap) (E : Set Nat)
    (hos : ∀ k, os.Conforms ps {q | alloc q = k} V)
    (hrun : GuardProgramRun ps alloc V os ([], s) E ([], s')) :
    ∀ q, q ∉ E → s' q = s q := by
  obtain ⟨fs, hescape, hfs⟩ := guardProgramRun_refines hos hrun
  cases hfs with
  | nil =>
      intro q hq
      exact escapeRun_keeps hescape hq

/-! ## A program -/

/-- The walk maps and unmaps nothing. -/
theorem mprotectPages_sameMapped (prot : NativeProtection) (n q : Nat) (s : PageMap) :
    SameMapped (mprotectPages prot n q s).2 s := by
  obtain ⟨k, -, hset, hmapped, -⟩ := mprotectPages_spec prot n q s
  rw [hset]
  exact setProt_isSome hmapped prot

theorem walkingPosix_conforms (ps : PageSize) (A : Set Nat) :
    (GuardOs.linux (walkingPosix ps)).Conforms ps A (fun prot => prot < 8) :=
  ⟨⟨walkingPosix_spec ps, fun _ h => h, walkingPosix_errno ps⟩, walkingPosix_touches ps⟩

/-- A third constructor inside the two guards, for a range whose second page is not
    mapped: it changes the first one and throws. -/
theorem nested_mprotect_fails :
    (ProtectionGuard.ofRange (walkingPosix samplePageSize).platform
        (linuxQueries nestedProcess sampleUninit) (0x3000 : BitVec 64) 0x5000 ⟨0⟩).run
        (setProt (rangePages samplePageSize 0x1000 0x4000) 7 nestedState)
      = (.error (.systemError { value := 12 } "mprotect() failed"),
        Function.update (setProt (rangePages samplePageSize 0x1000 0x4000) 7 nestedState) 3
          (some 0)) := by
  have hpages : ∀ q, q ∈ rangePages samplePageSize 0x1000 0x4000 ↔ q ∈ [1, 2, 3] := by
    intro q
    rw [rangePages, mem_pagesMeeting samplePageSize.pos_bytes]
    simp only [List.mem_cons, List.not_mem_nil, or_false]
    show 0x1000 < 0x4000 ∧ 0x1000 / 4096 ≤ q ∧ q * 4096 < 0x4000 ↔ _
    omega
  rw [setProt_list hpages 7 nestedState]
  have hopen : nestedProcess.openFile (mapsPath 1) = some nestedListing.text := rfl
  have hquery := queryRange_listing hopen sampleUninit 0x3000 0x5000
  rw [if_pos ⟨.anonymous 0x8000 0x9000 true false true false, by simp [nestedListing],
    by decide⟩] at hquery
  refine ofRange_protect_error hquery ?_
  show ((walkingPosix samplePageSize).protect (0x3000 : BitVec 64) 0x5000 ⟨0⟩).run _ = _
  rw [Posix.protect_run]
  rfl

/-- Two guards that overlap, and a constructor that throws inside them. -/
theorem guardProgram_keeps_sample :
    ∃ g g' ex t t', (ProtectionGuard.ofRange (walkingPosix samplePageSize).platform
          (linuxQueries sampleProcess sampleUninit) (0x1000 : BitVec 64) 0x2000 ⟨3⟩).run sampleState
        = (.ok g, nestedState)
      ∧ (ProtectionGuard.ofRange (walkingPosix samplePageSize).platform
          (linuxQueries nestedProcess sampleUninit) (0x1000 : BitVec 64) 0x4000 ⟨7⟩).run nestedState
        = (.ok g', t)
      ∧ (ProtectionGuard.ofRange (walkingPosix samplePageSize).platform
          (linuxQueries nestedProcess sampleUninit) (0x3000 : BitVec 64) 0x5000 ⟨0⟩).run t
        = (.error ex, t')
      ∧ ∀ q, ((g.destroy (walkingPosix samplePageSize).platform).run
          ((g'.destroy (walkingPosix samplePageSize).platform).run t').2).2 q = sampleState q := by
  have hopens : ∀ {proc : Process} {L : Listing} {s : PageMap} {first last : BitVec 64}
      {new : Protection}, Describes samplePageSize L s →
      proc.openFile (mapsPath proc.getpid) = some L.text → first ≤ last →
      RangeMapped samplePageSize s first last →
      Opens samplePageSize (fun _ => 0) (fun prot => prot < 8) s
        (.linux (walkingPosix samplePageSize))
        (ProtectionGuard.ofRange (walkingPosix samplePageSize).platform
          (linuxQueries proc sampleUninit) first last new)
        (rangePages samplePageSize first last) ∅ :=
    fun hd hopen hle hm => Opens.linuxRange _ _ _ _ _ _ _ hd hopen hle hm
  have houter := GuardProgram.construct [] sampleState _ _ _ _ _
    (hopens sampleState_described rfl (by decide) (sampleRange_mapped (by decide) (by decide)))
    outer_ofRange
  have hinner := fun gs => GuardProgram.construct gs nestedState _ _ _ _ _
    (hopens nestedState_described rfl (by decide) (nestedRange_mapped (by decide) (by decide)))
    inner_ofRange
  have hcall : ConstructorCall (.linux (walkingPosix samplePageSize))
      (ProtectionGuard.ofRange (walkingPosix samplePageSize).platform
        (linuxQueries nestedProcess sampleUninit) (0x3000 : BitVec 64) 0x5000 ⟨0⟩) :=
    ConstructorCall.range _ _ _ _
  have hrun := ((((GuardProgramRun.refl.tail houter).tail (hinner _)).tail
    (GuardProgram.throws _ _ _ _ _ hcall nested_mprotect_fails)).tail
      (GuardProgram.destroy _ _ _)).tail (GuardProgram.destroy _ _ _)
  refine ⟨_, _, _, _, _, outer_ofRange, inner_ofRange, nested_mprotect_fails, ?_⟩
  intro q
  refine guardProgram_keeps samplePageSize (fun _ => 0) (fun prot => prot < 8)
    (.linux (walkingPosix samplePageSize)) sampleState _ _
    (fun _ => walkingPosix_conforms samplePageSize _) hrun q ?_
  rintro (((((hempty | hempty) | hempty) | ⟨hchanged, hopen⟩) | ⟨hempty, -⟩) | ⟨hempty, -⟩)
  · exact hempty
  · exact hempty
  · exact hempty
  · -- the one page that the third constructor changes is a page of the inner guard
    by_cases hq : q = 3
    · refine hopen ⟨_, List.mem_cons_self .., ?_⟩
      rw [hq]
      exact (mem_pagesMeeting samplePageSize.pos_bytes).mpr ⟨by decide, by decide, by decide⟩
    · exact hchanged (Function.update_of_ne hq ..)
  · exact hempty
  · exact hempty

end VmUtils
