import VmUtils.GuardCalls
import VmUtils.GuardFailure

/-! # `restore(ec)` and an error already in `ec`

    A `protect` that succeeds leaves `ec` alone, so `restore(ec)` reads what the
    caller passed in.  An error already there ends the loop behind its first call,
    with the entry still in the guard.  Two incoming values of `ec` make no
    difference exactly if both are clear or that first call fails
    (`restoreEc_ecIrrelevant_iff`). -/

namespace VmUtils

open RetryStack

variable {σ : Type} {P : Platform σ} {f : Attempt OldProtStorage Failure σ}

/-- How a logged `restore(ec)` ends. -/
abbrev RestoreResult (σ : Type) := (Except Exn ErrorCode × ProtectionGuard) × Logged σ

/-- `restore(ec)` on a guard, with an empty log. -/
def loggedRestoreEc (P : Platform σ) (f : Attempt OldProtStorage Failure σ)
    (old : List OldProtStorage) (s : σ) (ec : ErrorCode) : RestoreResult σ :=
  ProtectionGuard.restoreEc (P.logged f) ⟨old⟩ ec (s, [])

/-- The error that is reported, if there is one. -/
def reportedError (report : Except Exn ErrorCode) : Except Exn (Option ErrorCode) :=
  report.map (fun ec => if ec.isSet then some ec else none)

/-- The two runs make the same calls, leave the same entries and report the same. -/
structure SameRestore (r₁ r₂ : RestoreResult σ) : Prop where
  calls : r₁.2.2 = r₂.2.2
  old : r₁.1.2 = r₂.1.2
  report : reportedError r₁.1.1 = reportedError r₂.1.1

/-- If all its calls succeed, the run restores everything and leaves `ec` clear. -/
def CompleteRestore (r : RestoreResult σ) : Prop :=
  (∀ c ∈ r.2.2, c.failure = none) → r.1.2.old = [] ∧ reportedError r.1.1 = .ok none

/-- The value that `ec` comes in with makes no difference. -/
structure EcIrrelevant (P : Platform σ) (f : Attempt OldProtStorage Failure σ)
    (old : List OldProtStorage) (s : σ) (ec₁ ec₂ : ErrorCode) : Prop where
  same : SameRestore (loggedRestoreEc P f old s ec₁) (loggedRestoreEc P f old s ec₂)
  complete₁ : CompleteRestore (loggedRestoreEc P f old s ec₁)
  complete₂ : CompleteRestore (loggedRestoreEc P f old s ec₂)

/-- The first `protect` call fails. -/
def FirstFails (f : Attempt OldProtStorage Failure σ) (old : List OldProtStorage) (s : σ) : Prop :=
  ∃ x e, old.getLast? = some x ∧ (f x s).1 = some e

/-- With a clear `ec` the run is that of the stack. -/
theorem loggedRestoreEc_clear (hP : P.Attempts f) {ec : ErrorCode} (hec : ec.isSet = false)
    (old : List OldProtStorage) (s : σ) :
    loggedRestoreEc P f old s ec
      = ((.ok (protectOutcomeEc ec (drain (recorded f) old.reverse (s, [])).1),
          ⟨(drain (recorded f) old.reverse (s, [])).2.1.reverse⟩),
        (drain (recorded f) old.reverse (s, [])).2.2) := by
  rw [loggedRestoreEc, ← hP.logged.restoreEc_eq hec, List.reverse_reverse]

/-- What is reported does not depend on which clear `ec` came in. -/
theorem reportedError_clear {ec : ErrorCode} (hec : ec.isSet = false) (r : Option Failure) :
    reportedError (.ok (protectOutcomeEc ec r)) = reportedError (.ok (protectOutcomeEc {} r)) := by
  cases r with
  | none =>
      show Except.ok (if ec.isSet then some ec else none) = .ok none
      rw [hec]
      rfl
  | some e => rfl

/-- A run with a clear `ec` and without a failing call is complete. -/
theorem completeRestore_clear (hP : P.Attempts f) {ec : ErrorCode} (hec : ec.isSet = false)
    (old : List OldProtStorage) (s : σ) : CompleteRestore (loggedRestoreEc P f old s ec) := by
  rw [loggedRestoreEc_clear hP hec]
  intro hcalls
  have hnone : (drain (recorded f) old.reverse (s, [])).1 = none := by
    cases hd : (drain (recorded f) old.reverse (s, [])).1 with
    | none => rfl
    | some e =>
        obtain ⟨c, hc, hfail⟩ := drain_failure_logged f old.reverse (s, []) hd
        rw [hcalls c hc] at hfail
        exact absurd hfail.symm (Option.some_ne_none e)
  refine ⟨?_, ?_⟩
  · show List.reverse _ = []
    rw [drain_eq_none _ _ _ hnone, List.reverse_nil]
  · show reportedError (.ok (protectOutcomeEc ec _)) = _
    rw [hnone, reportedError_clear hec]
    rfl

/-- If the first call fails, it is the only one and its failure is reported. -/
theorem loggedRestoreEc_of_failure (hP : P.Attempts f) {front : List OldProtStorage}
    {x : OldProtStorage} {s : σ} {e : Failure} (he : (f x s).1 = some e) (ec : ErrorCode) :
    loggedRestoreEc P f (front ++ [x]) s ec
      = ((.ok { value := e.code }, ⟨front ++ [x]⟩), ((f x s).2, [⟨x, some e⟩])) := by
  have hstep : recorded f x (s, []) = (some e, ((f x s).2, [⟨x, some e⟩])) := by
    rw [recorded, he]
    rfl
  have hset := hP.logged.isSet_of_failure (congrArg Prod.fst hstep) ec
  rw [loggedRestoreEc, restoreEc_concat_set hset (hP.logged.protectEc_run x ec (s, [])), hstep]
  rfl

/-- **An error already in `ec`**: the run is complete only if its first call fails. -/
theorem firstFails_of_stale (hP : P.Attempts f) {ec : ErrorCode} (hec : ec.isSet = true)
    {old : List OldProtStorage} {s : σ}
    (h : CompleteRestore (loggedRestoreEc P f old s ec)) : FirstFails f old s := by
  rcases List.eq_nil_or_concat' old with rfl | ⟨front, x, rfl⟩
  · -- nothing to do, and the old error is reported
    rw [loggedRestoreEc, restoreEc_nil] at h
    have hreport := (h (fun c hc => absurd hc List.not_mem_nil)).2
    have hreport' : Except.ok (if ec.isSet then some ec else none)
      = (Except.ok none : Except Exn (Option ErrorCode)) := hreport
    rw [hec] at hreport'
    exact absurd (Except.ok.inj hreport') (Option.some_ne_none ec)
  · cases hf : (f x s).1 with
    | some e => exact ⟨x, e, List.getLast?_concat .., hf⟩
    | none =>
        -- the entry is protected again and stays in the guard
        rw [loggedRestoreEc, hP.logged.restoreEc_stale hec] at h
        have hold : front ++ [x] = [] := by
          refine (h ?_).1
          intro c hc
          have hc' : c ∈ [(⟨x, (f x s).1⟩ : Call OldProtStorage Failure)] := hc
          rw [List.mem_singleton.mp hc']
          exact hf
        exact absurd hold (List.append_ne_nil_of_right_ne_nil _ (List.cons_ne_nil x []))

/-- **When the incoming `ec` makes no difference**, on any platform. -/
theorem Platform.Attempts.ecIrrelevant_iff (hP : P.Attempts f) (old : List OldProtStorage) (s : σ)
    (ec₁ ec₂ : ErrorCode) :
    EcIrrelevant P f old s ec₁ ec₂
      ↔ (ec₁.isSet = false ∧ ec₂.isSet = false) ∨ FirstFails f old s := by
  constructor
  · rintro ⟨-, hcomplete₁, hcomplete₂⟩
    cases h₁ : ec₁.isSet with
    | true => exact Or.inr (firstFails_of_stale hP h₁ hcomplete₁)
    | false =>
        cases h₂ : ec₂.isSet with
        | true => exact Or.inr (firstFails_of_stale hP h₂ hcomplete₂)
        | false => exact Or.inl ⟨rfl, rfl⟩
  · rintro (⟨h₁, h₂⟩ | ⟨x, e, hlast, he⟩)
    · refine ⟨?_, completeRestore_clear hP h₁ old s, completeRestore_clear hP h₂ old s⟩
      rw [loggedRestoreEc_clear hP h₁, loggedRestoreEc_clear hP h₂]
      refine ⟨rfl, rfl, ?_⟩
      rw [reportedError_clear h₁, reportedError_clear h₂]
    · obtain ⟨front, rfl⟩ := List.getLast?_eq_some_iff.mp hlast
      have hfails : ∀ ec, CompleteRestore (loggedRestoreEc P f (front ++ [x]) s ec) := by
        intro ec hcalls
        rw [loggedRestoreEc_of_failure hP he] at hcalls
        exact absurd (hcalls _ (List.mem_singleton_self _)) (Option.some_ne_none e)
      refine ⟨?_, hfails ec₁, hfails ec₂⟩
      rw [loggedRestoreEc_of_failure hP he, loggedRestoreEc_of_failure hP he]
      exact ⟨rfl, rfl, rfl⟩

/-- **When the incoming `ec` makes no difference** to `restore(ec)`, on POSIX and on
    Windows: both values are clear, or there is an entry and the `protect` call
    for the last one fails. -/
theorem restoreEc_ecIrrelevant_iff (posix : Posix σ) (windows : Windows σ)
    (old : List OldProtStorage) (s : σ) (ec₁ ec₂ : ErrorCode)
    (herrno : ∀ addr len prot s errno,
      (posix.mprotect addr len prot s).1 = some errno → errno ≠ 0)
    (hprotect : ∀ addr size prot s code,
      (windows.virtualProtect addr size prot s).1 = some code → code ≠ 0)
    (hflush : ∀ addr size s code,
      (windows.flushInstructionCache addr size s).1 = some code → code ≠ 0) :
    (EcIrrelevant posix.platform posix.attempt old s ec₁ ec₂
        ↔ (ec₁.isSet = false ∧ ec₂.isSet = false) ∨ FirstFails posix.attempt old s)
      ∧ (EcIrrelevant windows.platform windows.attempt old s ec₁ ec₂
        ↔ (ec₁.isSet = false ∧ ec₂.isSet = false) ∨ FirstFails windows.attempt old s) :=
  ⟨(posix.platform_attempts herrno).ecIrrelevant_iff old s ec₁ ec₂,
    (windows.platform_attempts hprotect hflush).ecIrrelevant_iff old s ec₁ ec₂⟩

theorem walkingWindows_virtualProtect_code (ps : PageSize) (flush : Option Int) :
    ∀ addr size prot s code,
      ((walkingWindows ps flush).virtualProtect addr size prot s).1 = some code → code ≠ 0 := by
  intro addr size prot s code h
  dsimp only [walkingWindows] at h
  by_cases hsize : size = 0
  · rw [if_pos hsize] at h
    obtain rfl := Option.some.inj h
    decide
  · rw [if_neg hsize] at h
    generalize mprotectPages prot ((addr.toNat + size.toNat + ps.bytes - 1) / ps.bytes
      - addr.toNat / ps.bytes) (addr.toNat / ps.bytes) s = walk at h
    rcases walk with ⟨_ | e, s'⟩
    · exact absurd h.symm (Option.some_ne_none code)
    · obtain rfl := Option.some.inj h
      decide

theorem restoreEc_ecIrrelevant_iff_sample :
    (EcIrrelevant (walkingPosix samplePageSize).platform (walkingPosix samplePageSize).attempt
          sampleEntries sampleState {} { value := 5 }
        ↔ (({} : ErrorCode).isSet = false ∧ ({ value := 5 } : ErrorCode).isSet = false)
          ∨ FirstFails (walkingPosix samplePageSize).attempt sampleEntries sampleState)
      ∧ (EcIrrelevant (walkingWindows samplePageSize none).platform
          (walkingWindows samplePageSize none).attempt sampleEntries sampleState {} { value := 5 }
        ↔ (({} : ErrorCode).isSet = false ∧ ({ value := 5 } : ErrorCode).isSet = false)
          ∨ FirstFails (walkingWindows samplePageSize none).attempt sampleEntries sampleState) :=
  restoreEc_ecIrrelevant_iff (walkingPosix samplePageSize) (walkingWindows samplePageSize none)
    sampleEntries sampleState {} { value := 5 } (walkingPosix_errno _)
    (walkingWindows_virtualProtect_code _ _) (fun _ _ _ _ h => nomatch h)

/-- One saved entry of a mapped page. -/
def sampleEntry : OldProtStorage := ⟨0x1000, 0x2000, 1⟩

/-- A stale error keeps `restore(ec)` from removing an entry that it has just
    protected again; `restore()` removes it. -/
theorem restoreEc_sample_stale :
    (loggedRestoreEc (walkingPosix samplePageSize).platform (walkingPosix samplePageSize).attempt
        [sampleEntry] sampleState {}).1 = (.ok {}, ⟨[]⟩)
      ∧ (loggedRestoreEc (walkingPosix samplePageSize).platform
        (walkingPosix samplePageSize).attempt [sampleEntry] sampleState { value := 5 }).1
        = (.ok { value := 5 }, ⟨[sampleEntry]⟩)
      ∧ ¬ EcIrrelevant (walkingPosix samplePageSize).platform
        (walkingPosix samplePageSize).attempt [sampleEntry] sampleState {} { value := 5 } := by
  have hP := (walkingPosix samplePageSize).platform_attempts (walkingPosix_errno _)
  have hcall : ((walkingPosix samplePageSize).attempt sampleEntry sampleState).1 = none := rfl
  have hset : ({ value := 5 } : ErrorCode).isSet = true := rfl
  have hstale := hP.logged.restoreEc_stale hset [] sampleEntry (sampleState, [])
  refine ⟨?_, ?_, ?_⟩
  · rw [loggedRestoreEc_clear hP rfl]
    rfl
  · rw [loggedRestoreEc]
    exact congrArg Prod.fst hstale
  · rw [hP.ecIrrelevant_iff]
    rintro (⟨-, hclear⟩ | ⟨x, e, hlast, he⟩)
    · exact absurd hclear (by decide)
    · have hx : sampleEntry = x := Option.some.inj hlast
      rw [← hx, hcall] at he
      exact absurd he.symm (Option.some_ne_none e)

end VmUtils
