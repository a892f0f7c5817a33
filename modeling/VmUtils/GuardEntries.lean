import VmUtils.GuardDestructor
import VmUtils.GuardFailure

/-! # Entries that can be written back

    What a guard needs of a platform is said once for all of them (`SetsPages`): on
    mapped pages a `protect` sets exactly the pages that meet its range, and a
    protection that a page had is accepted again.  Destructor and `restore` are
    then replays of writes, from the front and from the back
    (`SetsPages.destroy_run`, `SetsPages.restore_run`). -/

namespace VmUtils

open Overlay Pages RetryStack

/-- The operation sets exactly the pages of an entry, and does so for the
    protections `V` on mapped pages of `A`. -/
structure SetsPages (ps : PageSize) (A : Set Nat) (V : NativeProtection → Prop)
    (f : Attempt OldProtStorage Failure PageMap) : Prop where
  idle : ∀ x s, x.beginAddr = x.endAddr → f x s = (none, s)
  succeeds : ∀ x s, x.beginAddr < x.endAddr → V x.prot →
    (∀ q ∈ (entryWrite ps x).cells, q ∈ A ∧ (s q).isSome) → (f x s).1 = none
  sets : ∀ x s s', x.beginAddr < x.endAddr → (∀ q ∈ (entryWrite ps x).cells, (s q).isSome) →
    f x s = (none, s') → s' = (entryWrite ps x).apply s

/-- An entry that the platform accepts in the state `s`. -/
structure Restorable (ps : PageSize) (A : Set Nat) (V : NativeProtection → Prop) (s : PageMap)
    (e : OldProtStorage) : Prop where
  bounds : e.beginAddr < e.endAddr
  accepted : V e.prot
  mapped : ∀ q ∈ (entryWrite ps e).cells, q ∈ A ∧ (s q).isSome

variable {ps : PageSize} {A : Set Nat} {V : NativeProtection → Prop} {s : PageMap}

/-! ## The two systems -/

/-- `mprotect` sets the pages of an entry. -/
theorem MprotectSpec.setsPages {os : Posix PageMap} (h : MprotectSpec ps os)
    (hV : ∀ prot, V prot → prot < 8) : SetsPages ps A V os.attempt := by
  refine ⟨fun _ _ heq => if_pos heq, ?_, ?_⟩
  · intro x s hlt hprot hmapped
    have hne : x.beginAddr ≠ x.endAddr := by
      intro heq
      rw [heq] at hlt
      exact absurd hlt (Nat.lt_irrefl _)
    have hcall := h.mprotect_ok hne (Or.inl (Nat.le_of_lt hlt)) (hV _ hprot)
      (fun q hq => (hmapped q hq).2)
    rw [Posix.attempt, if_neg hne, hcall]
    rfl
  · intro x s s' hlt hmapped hrun
    have hne : x.beginAddr ≠ x.endAddr := by
      intro heq
      rw [heq] at hlt
      exact absurd hlt (Nat.lt_irrefl _)
    have hreq := requested_roundDown h.pageSize_eq hne (Or.inl (Nat.le_of_lt hlt))
    rw [Posix.attempt, if_neg hne] at hrun
    rcases hcall : os.mprotect (x.beginAddr &&& -os.pageSize)
      (x.endAddr - (x.beginAddr &&& -os.pageSize)) x.prot s with ⟨_ | errno, s''⟩
    · rw [hcall] at hrun
      obtain rfl : s'' = s' := (Prod.mk.inj hrun).2
      refine (h.sets _ _ _ _ _ (roundDown_dvd h.pageSize_eq _) ?_ hcall).trans ?_
      · rw [hreq]
        exact hmapped
      · rw [hreq]
        rfl
    · rw [hcall] at hrun
      exact absurd (Prod.mk.inj hrun).1 (Option.some_ne_none _)

/-- What is assumed of Windows: on committed pages of one allocation `A` both
    calls succeed, for the protections `V`. -/
structure VirtualProtectAccepts (ps : PageSize) (A : Set Nat) (V : NativeProtection → Prop)
    (os : Windows PageMap) : Prop where
  protects : ∀ addr size prot s, 0 < size → V prot →
    (∀ q ∈ requested ps addr size, q ∈ A ∧ (s q).isSome) →
    (os.virtualProtect addr size prot s).1 = none
  flushes : ∀ addr size s, 0 < size →
    (∀ q ∈ requested ps addr size, q ∈ A ∧ (s q).isSome) →
    (os.flushInstructionCache addr size s).1 = none

/-- Windows is asked for the pages of an entry. -/
theorem requested_entry (ps : PageSize) {x : OldProtStorage} (hlt : x.beginAddr < x.endAddr) :
    requested ps x.beginAddr (x.endAddr - x.beginAddr) = (entryWrite ps x).cells :=
  requested_sub (Nat.le_of_lt hlt)

/-- `VirtualProtect` sets the pages of an entry, whatever becomes of the cache. -/
theorem VirtualProtectSpec.setsPages {os : Windows PageMap} (h : VirtualProtectSpec ps os)
    (ha : VirtualProtectAccepts ps A V os) : SetsPages ps A V os.attempt := by
  refine ⟨fun _ _ heq => if_pos heq, ?_, ?_⟩
  · intro x s hlt hprot hmapped
    have hne : x.beginAddr ≠ x.endAddr := by
      intro heq
      rw [heq] at hlt
      exact absurd hlt (Nat.lt_irrefl _)
    have hsize : 0 < x.endAddr - x.beginAddr := by bv_omega
    have hreq := requested_entry ps hlt
    have hmapped' := hmapped
    rw [← hreq] at hmapped'
    have hok := ha.protects _ _ _ _ hsize hprot hmapped'
    rcases hcall : os.virtualProtect x.beginAddr (x.endAddr - x.beginAddr) x.prot s
      with ⟨r, s₁⟩
    rw [hcall] at hok
    obtain rfl : r = none := hok
    have hset := h.sets _ _ _ _ _ hcall
    have hflush : (os.flushInstructionCache x.beginAddr (x.endAddr - x.beginAddr) s₁).1
        = none := by
      refine ha.flushes _ _ _ hsize ?_
      intro q hq
      refine ⟨(hmapped' q hq).1, ?_⟩
      rw [hset, setProt, put_mem hq]
      rfl
    rw [Windows.attempt, if_neg hne, hcall]
    show (flushFailure (os.flushInstructionCache _ _ s₁)).1 = none
    rcases hfl : os.flushInstructionCache x.beginAddr (x.endAddr - x.beginAddr) s₁
      with ⟨_ | code, s₂⟩
    · rfl
    · rw [hfl] at hflush
      exact absurd hflush (Option.some_ne_none _)
  · intro x s s' hlt _ hrun
    have hne : x.beginAddr ≠ x.endAddr := by
      intro heq
      rw [heq] at hlt
      exact absurd hlt (Nat.lt_irrefl _)
    rw [Windows.attempt, if_neg hne] at hrun
    rcases hcall : os.virtualProtect x.beginAddr (x.endAddr - x.beginAddr) x.prot s
      with ⟨_ | code, s₁⟩
    · have hset := h.sets _ _ _ _ _ hcall
      have hkeep := h.flush x.beginAddr (x.endAddr - x.beginAddr) s₁
      rw [hcall] at hrun
      have hrun' : flushFailure (os.flushInstructionCache x.beginAddr
        (x.endAddr - x.beginAddr) s₁) = (none, s') := hrun
      rcases hfl : os.flushInstructionCache x.beginAddr (x.endAddr - x.beginAddr) s₁
        with ⟨_ | code, s₂⟩
      · rw [hfl] at hrun' hkeep
        have hs : s₂ = s' := (Prod.mk.inj hrun').2
        have hkeep' : s₂ = s₁ := hkeep
        rw [← hs, hkeep', hset, requested_entry ps hlt]
        rfl
      · rw [hfl] at hrun'
        exact absurd (Prod.mk.inj hrun').1 (Option.some_ne_none _)
    · rw [hcall] at hrun
      exact absurd (Prod.mk.inj hrun).1 (Option.some_ne_none _)

/-! ## Writing entries back -/

variable {P : Platform PageMap} {f : Attempt OldProtStorage Failure PageMap}

/-- A write leaves the other entries acceptable. -/
theorem Restorable.after {e : OldProtStorage} (h : Restorable ps A V s e) (e' : OldProtStorage) :
    Restorable ps A V ((entryWrite ps e').apply s) e :=
  ⟨h.bounds, h.accepted, fun q hq => ⟨(h.mapped q hq).1, isSome_apply e' (h.mapped q hq).2⟩⟩

/-- An acceptable entry is written. -/
theorem SetsPages.attempt_eq (h : SetsPages ps A V f) {e : OldProtStorage}
    (he : Restorable ps A V s e) : f e s = (none, (entryWrite ps e).apply s) := by
  have hok := h.succeeds e s he.bounds he.accepted he.mapped
  rcases hf : f e s with ⟨r, s'⟩
  rw [hf] at hok
  obtain rfl : r = none := hok
  rw [h.sets e s s' he.bounds (fun q hq => (he.mapped q hq).2) hf]

/-- A stack of acceptable entries is written from its top. -/
theorem SetsPages.drain_eq (h : SetsPages ps A V f) (xs : List OldProtStorage)
    (hxs : ∀ e ∈ xs, Restorable ps A V s e) :
    drain f xs s = (none, [], replay (xs.map (entryWrite ps)) s) :=
  drain_eq_replay (I := fun e s => Restorable ps A V s e) (fun _ _ he => h.attempt_eq he)
    (fun _ e' _ he _ => he.after e') xs hxs

/-- **The destructor** writes the entries from the front. -/
theorem SetsPages.destroy_run (h : SetsPages ps A V f) (hP : P.Attempts f) {g : ProtectionGuard}
    (hg : ∀ e ∈ g.old, Restorable ps A V s e) :
    (g.destroy P).run s = (.ok (), replay (g.old.map (entryWrite ps)) s) :=
  hP.destroy_of_drain (h.drain_eq g.old hg)

/-- **`restore()`** writes them from the back and empties the guard. -/
theorem SetsPages.restore_run (h : SetsPages ps A V f) (hP : P.Attempts f)
    {old : List OldProtStorage} (hold : ∀ e ∈ old, Restorable ps A V s e) :
    ProtectionGuard.restore P ⟨old⟩ s
      = ((.ok (), ⟨[]⟩), replay (old.map (entryWrite ps)).reverse s) := by
  have hdrain := h.drain_eq old.reverse (fun e he => hold e (List.mem_reverse.mp he))
  rw [List.map_reverse] at hdrain
  exact hP.restore_of_drain hdrain

/-- **`restore(ec)`** with a clear `ec` does the same. -/
theorem SetsPages.restoreEc_run (h : SetsPages ps A V f) (hP : P.Attempts f)
    {old : List OldProtStorage} (hold : ∀ e ∈ old, Restorable ps A V s e) {ec : ErrorCode}
    (hec : ec.isSet = false) :
    ProtectionGuard.restoreEc P ⟨old⟩ ec s
      = ((.ok ec, ⟨[]⟩), replay (old.map (entryWrite ps)).reverse s) := by
  have hdrain := h.drain_eq old.reverse (fun e he => hold e (List.mem_reverse.mp he))
  rw [List.map_reverse] at hdrain
  exact hP.restoreEc_of_drain hec hdrain

/-- A `protect` of a mapped range that returns has set its pages. -/
theorem SetsPages.protect_sets (h : SetsPages ps A V f) (hP : P.Attempts f)
    {first last : BitVec 64} (hle : first ≤ last) (hm : RangeMapped ps s first last)
    {prot : Protection} {s' : PageMap} (hrun : (P.protect first last prot).run s = (.ok (), s')) :
    s' = setProt (rangePages ps first last) prot.native s := by
  have heq := hP.protect_run ⟨first, last, prot.native⟩ s
  have hcall : (P.protect first last prot).run s
      = (protectOutcome (f ⟨first, last, prot.native⟩ s).1, (f ⟨first, last, prot.native⟩ s).2) :=
    heq
  rw [hrun] at hcall
  rcases hf : f ⟨first, last, prot.native⟩ s with ⟨_ | e, s''⟩
  · rw [hf] at hcall
    obtain rfl : s' = s'' := (Prod.mk.inj hcall).2
    by_cases heq : first = last
    · have hidle := h.idle ⟨first, last, prot.native⟩ s heq
      rw [hidle] at hf
      obtain rfl := (Prod.mk.inj hf).2
      rw [heq, rangePages, pagesMeeting_empty (Nat.le_refl _), setProt, put_empty]
    · have hlt : first < last := by bv_omega
      exact h.sets ⟨first, last, prot.native⟩ s s' hlt hm hf
  · rw [hf] at hcall
    cases (Prod.mk.inj hcall).1

/-- A `protect` of a mapped range with an accepted protection returns. -/
theorem SetsPages.protect_ok (h : SetsPages ps A V f) (hP : P.Attempts f)
    {first last : BitVec 64} (hle : first ≤ last) {prot : Protection} (hV : V prot.native)
    (hm : ∀ q ∈ rangePages ps first last, q ∈ A ∧ (s q).isSome) :
    (P.protect first last prot).run s
      = (.ok (), setProt (rangePages ps first last) prot.native s) := by
  have hrun : ∃ s', (P.protect first last prot).run s = (.ok (), s') := by
    have hcall := hP.protect_run ⟨first, last, prot.native⟩ s
    have hnone : (f ⟨first, last, prot.native⟩ s).1 = none := by
      by_cases heq : first = last
      · rw [h.idle ⟨first, last, prot.native⟩ s heq]
      · exact h.succeeds ⟨first, last, prot.native⟩ s (by bv_omega) hV hm
    rw [hnone] at hcall
    exact ⟨_, hcall⟩
  obtain ⟨s', hs'⟩ := hrun
  rw [hs', h.protect_sets hP hle (fun q hq => (hm q hq).2) hs']

end VmUtils
