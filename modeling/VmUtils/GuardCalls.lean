import VmUtils.ProtectionGuard
import VmUtils.PageState
import VmUtils.Lib.RetryStack

/-! # The calls a guard makes

    `restore()` and `restore(ec)` work off the vector `_old` from its back, where
    the underlying `protect` may fail at any call (`Platform.Attempts`).  Over any
    sequence of calls of the guard the vector stays a prefix of what was saved,
    what was removed has been protected again, and what failed is tried again by
    the next call (`guardCalls_spec`). -/

namespace VmUtils

open RetryStack

variable {σ : Type}

/-! ## `protect` as an operation that may fail -/

/-- How a `protect` fails. -/
structure Failure where
  code : Int
  what : String
  deriving DecidableEq, Repr

/-- The failure as the throwing overload reports it. -/
def protectOutcome : Option Failure → Except Exn Unit
  | none => .ok ()
  | some e => .error (.systemError { value := e.code } e.what)

/-- The failure as the `error_code` overload reports it: a success leaves `ec`. -/
def protectOutcomeEc (ec : ErrorCode) : Option Failure → ErrorCode
  | none => ec
  | some e => { value := e.code }

/-- On saved entries both overloads of `protect` are the operation `f`. -/
structure Platform.Calls (P : Platform σ) (f : Attempt OldProtStorage Failure σ) : Prop where
  protect_run : ∀ (x : OldProtStorage) (s : σ),
    (P.protect x.beginAddr x.endAddr ⟨x.prot⟩).run s = (protectOutcome (f x s).1, (f x s).2)
  protectEc_run : ∀ (x : OldProtStorage) (ec : ErrorCode) (s : σ),
    (P.protectEc x.beginAddr x.endAddr ⟨x.prot⟩ ec).run s
      = (.ok (protectOutcomeEc ec (f x s).1), (f x s).2)

/-- The same with failures that set an `error_code`. -/
structure Platform.Attempts (P : Platform σ) (f : Attempt OldProtStorage Failure σ) : Prop
    extends Platform.Calls P f where
  code_ne : ∀ x s e, (f x s).1 = some e → e.code ≠ 0

/-! ## The operations of the two systems -/

/-- The outcome of `mprotect` as a failure or none. -/
def mprotectFailure : Option Int × σ → Option Failure × σ
  | (none, s) => (none, s)
  | (some errno, s) => (some ⟨errno, "mprotect() failed"⟩, s)

/-- The outcome of `FlushInstructionCache`. -/
def flushFailure : Option Int × σ → Option Failure × σ
  | (none, s) => (none, s)
  | (some code, s) => (some ⟨code, "FlushInstructionCache() failed"⟩, s)

/-- The outcome of `VirtualProtect`, `flush` being what follows a success. -/
def virtualProtectFailure (flush : StateM σ (Option Int)) : Option Int × σ → Option Failure × σ
  | (none, s) => flushFailure (flush s)
  | (some code, s) => (some ⟨code, "VirtualProtect() failed"⟩, s)

/-- `protect` on POSIX, for a saved entry. -/
def Posix.attempt (os : Posix σ) : Attempt OldProtStorage Failure σ := fun x s =>
  if x.beginAddr = x.endAddr then (none, s)
  else mprotectFailure (os.mprotect (x.beginAddr &&& -os.pageSize)
    (x.endAddr - (x.beginAddr &&& -os.pageSize)) x.prot s)

/-- `protect` on Windows, for a saved entry. -/
def Windows.attempt (os : Windows σ) : Attempt OldProtStorage Failure σ := fun x s =>
  if x.beginAddr = x.endAddr then (none, s)
  else virtualProtectFailure (os.flushInstructionCache x.beginAddr (x.endAddr - x.beginAddr))
    (os.virtualProtect x.beginAddr (x.endAddr - x.beginAddr) x.prot s)

theorem mprotectOutcome_eq (r : Option Int × σ) :
    mprotectOutcome r = (protectOutcome (mprotectFailure r).1, (mprotectFailure r).2) := by
  rcases r with ⟨_ | errno, s⟩
  · rfl
  · rfl

theorem mprotectOutcomeEc_eq (ec : ErrorCode) (r : Option Int × σ) :
    mprotectOutcomeEc ec r
      = (.ok (protectOutcomeEc ec (mprotectFailure r).1), (mprotectFailure r).2) := by
  rcases r with ⟨_ | errno, s⟩
  · rfl
  · rfl

theorem flushOutcome_eq (r : Option Int × σ) :
    flushOutcome r = (protectOutcome (flushFailure r).1, (flushFailure r).2) := by
  rcases r with ⟨_ | code, s⟩
  · rfl
  · rfl

theorem flushOutcomeEc_eq (ec : ErrorCode) (r : Option Int × σ) :
    flushOutcomeEc ec r = (.ok (protectOutcomeEc ec (flushFailure r).1), (flushFailure r).2) := by
  rcases r with ⟨_ | code, s⟩
  · rfl
  · rfl

theorem virtualProtectOutcome_eq (flush : StateM σ (Option Int)) (r : Option Int × σ) :
    virtualProtectOutcome flush r
      = (protectOutcome (virtualProtectFailure flush r).1, (virtualProtectFailure flush r).2) := by
  rcases r with ⟨_ | code, s⟩
  · exact flushOutcome_eq (flush s)
  · rfl

theorem virtualProtectOutcomeEc_eq (ec : ErrorCode) (flush : StateM σ (Option Int))
    (r : Option Int × σ) :
    virtualProtectOutcomeEc ec flush r
      = (.ok (protectOutcomeEc ec (virtualProtectFailure flush r).1),
        (virtualProtectFailure flush r).2) := by
  rcases r with ⟨_ | code, s⟩
  · exact flushOutcomeEc_eq ec (flush s)
  · rfl

/-- The codes of the failures are those of the system calls. -/
theorem mprotectFailure_code {r : Option Int × σ} (h : ∀ errno, r.1 = some errno → errno ≠ 0) :
    ∀ e, (mprotectFailure r).1 = some e → e.code ≠ 0 := by
  intro e he
  rcases r with ⟨_ | errno, s⟩
  · exact absurd he.symm (Option.some_ne_none e)
  · obtain rfl := Option.some.inj he
    exact h errno rfl

theorem flushFailure_code {r : Option Int × σ} (h : ∀ code, r.1 = some code → code ≠ 0) :
    ∀ e, (flushFailure r).1 = some e → e.code ≠ 0 := by
  intro e he
  rcases r with ⟨_ | code, s⟩
  · exact absurd he.symm (Option.some_ne_none e)
  · obtain rfl := Option.some.inj he
    exact h code rfl

theorem virtualProtectFailure_code {flush : StateM σ (Option Int)} {r : Option Int × σ}
    (h : ∀ code, r.1 = some code → code ≠ 0)
    (hflush : ∀ s code, (flush s).1 = some code → code ≠ 0) :
    ∀ e, (virtualProtectFailure flush r).1 = some e → e.code ≠ 0 := by
  intro e he
  rcases r with ⟨_ | code, s⟩
  · exact flushFailure_code (hflush s) e he
  · obtain rfl := Option.some.inj he
    exact h code rfl

/-- A platform whose `protect` does nothing on an empty range and else makes the
    call `f`. -/
theorem Platform.calls_of_call {P : Platform σ} {f g : Attempt OldProtStorage Failure σ}
    (hg : ∀ x s, g x s = if x.beginAddr = x.endAddr then (none, s) else f x s)
    (hprotect : ∀ x s, (P.protect x.beginAddr x.endAddr ⟨x.prot⟩).run s
      = if x.beginAddr = x.endAddr then (.ok (), s) else (protectOutcome (f x s).1, (f x s).2))
    (hprotectEc : ∀ x ec s, (P.protectEc x.beginAddr x.endAddr ⟨x.prot⟩ ec).run s
      = if x.beginAddr = x.endAddr then (.ok ec, s)
        else (.ok (protectOutcomeEc ec (f x s).1), (f x s).2)) : P.Calls g := by
  refine ⟨?_, ?_⟩
  · intro x s
    rw [hprotect, hg]
    by_cases h : x.beginAddr = x.endAddr
    · rw [if_pos h, if_pos h]
      rfl
    · rw [if_neg h, if_neg h]
  · intro x ec s
    rw [hprotectEc, hg]
    by_cases h : x.beginAddr = x.endAddr
    · rw [if_pos h, if_pos h]
      rfl
    · rw [if_neg h, if_neg h]

/-- An empty range does not fail. -/
theorem code_ne_of_call {f g : Attempt OldProtStorage Failure σ}
    (hg : ∀ x s, g x s = if x.beginAddr = x.endAddr then (none, s) else f x s)
    (hcode : ∀ x s e, (f x s).1 = some e → e.code ≠ 0) (x : OldProtStorage) (s : σ)
    (e : Failure) (he : (g x s).1 = some e) : e.code ≠ 0 := by
  rw [hg] at he
  by_cases h : x.beginAddr = x.endAddr
  · rw [if_pos h] at he
    exact absurd he.symm (Option.some_ne_none e)
  · rw [if_neg h] at he
    exact hcode x s e he

/-- The POSIX `protect`. -/
theorem Posix.platform_calls (os : Posix σ) : os.platform.Calls os.attempt := by
  refine Platform.calls_of_call (fun _ _ => rfl) ?_ ?_
  · intro x s
    rw [← mprotectOutcome_eq]
    exact os.protect_run x.beginAddr x.endAddr ⟨x.prot⟩ s
  · intro x ec s
    rw [← mprotectOutcomeEc_eq]
    exact os.protectEc_run x.beginAddr x.endAddr ⟨x.prot⟩ ec s

/-- The POSIX `protect`, if a failing `mprotect` sets `errno`. -/
theorem Posix.platform_attempts (os : Posix σ)
    (herrno : ∀ addr len prot s errno, (os.mprotect addr len prot s).1 = some errno → errno ≠ 0) :
    os.platform.Attempts os.attempt := by
  refine ⟨os.platform_calls, code_ne_of_call (fun _ _ => rfl) ?_⟩
  intro x s
  exact mprotectFailure_code (herrno _ _ _ _)

/-- The Windows `protect`, if `GetLastError` tells a failure. -/
theorem Windows.platform_attempts (os : Windows σ)
    (hprotect : ∀ addr size prot s code,
      (os.virtualProtect addr size prot s).1 = some code → code ≠ 0)
    (hflush : ∀ addr size s code,
      (os.flushInstructionCache addr size s).1 = some code → code ≠ 0) :
    os.platform.Attempts os.attempt := by
  refine ⟨Platform.calls_of_call (fun _ _ => rfl) ?_ ?_, code_ne_of_call (fun _ _ => rfl) ?_⟩
  · intro x s
    rw [← virtualProtectOutcome_eq]
    exact os.protect_run x.beginAddr x.endAddr ⟨x.prot⟩ s
  · intro x ec s
    rw [← virtualProtectOutcomeEc_eq]
    exact os.protectEc_run x.beginAddr x.endAddr ⟨x.prot⟩ ec s
  · intro x s
    exact virtualProtectFailure_code (hprotect _ _ _ _) (hflush _ _)

/-! ## The loops -/

variable {P : Platform σ} {f : Attempt OldProtStorage Failure σ}

/-- A failure sets `ec`. -/
theorem Platform.Attempts.isSet_of_failure (hP : P.Attempts f) {x : OldProtStorage} {s : σ}
    {e : Failure} (h : (f x s).1 = some e) (ec : ErrorCode) :
    (protectOutcomeEc ec (f x s).1).isSet = true := by
  rw [h]
  exact bne_iff_ne.mpr (hP.code_ne x s e h)

/-- A set `ec` stays set, a success does not clear it. -/
theorem Platform.Attempts.isSet_of_stale (hP : P.Attempts f) {ec : ErrorCode}
    (hec : ec.isSet = true) (x : OldProtStorage) (s : σ) :
    (protectOutcomeEc ec (f x s).1).isSet = true := by
  cases hf : (f x s).1 with
  | none => exact hec
  | some e =>
      rw [← hf]
      exact hP.isSet_of_failure hf ec

/-- A clear report means that no operation has failed. -/
theorem Platform.Attempts.drain_of_clear (hP : P.Attempts f) {ec : ErrorCode}
    {xs : List OldProtStorage} {s : σ}
    (h : (protectOutcomeEc ec (drain f xs s).1).isSet = false) : (drain f xs s).2.1 = [] := by
  refine drain_eq_none f xs s ?_
  cases hd : (drain f xs s).1 with
  | none => rfl
  | some e =>
      obtain ⟨x, s', he⟩ := drain_eq_some f xs s hd
      have hset := hP.isSet_of_failure he ec
      rw [he, ← hd, h] at hset
      exact absurd hset Bool.false_ne_true

/-- **`restore()` works off the vector from its back.** -/
theorem Platform.Calls.restore_eq (hP : P.Calls f) (xs : List OldProtStorage) (s : σ) :
    ProtectionGuard.restore P ⟨xs.reverse⟩ s
      = ((protectOutcome (drain f xs s).1, ⟨(drain f xs s).2.1.reverse⟩), (drain f xs s).2.2) := by
  induction xs generalizing s with
  | nil => exact restore_nil P s
  | cons x xs ih =>
      have hrun := hP.protect_run x s
      rw [List.reverse_cons]
      rcases hf : f x s with ⟨_ | e, s'⟩
      · rw [hf] at hrun
        rw [restore_concat hrun, drain_of_success hf]
        exact ih s'
      · rw [hf] at hrun
        rw [restore_concat_error hrun, drain_of_failure hf, List.reverse_cons]
        rfl

/-- **`restore(ec)` with a clear `ec`** works it off as well, if a failure shows in
    `ec`. -/
theorem Platform.Calls.restoreEc_eq (hP : P.Calls f) {ec : ErrorCode} (hec : ec.isSet = false)
    (xs : List OldProtStorage) (s : σ) (hcode : ∀ e, (drain f xs s).1 = some e → e.code ≠ 0) :
    ProtectionGuard.restoreEc P ⟨xs.reverse⟩ ec s
      = ((.ok (protectOutcomeEc ec (drain f xs s).1), ⟨(drain f xs s).2.1.reverse⟩),
        (drain f xs s).2.2) := by
  induction xs generalizing s with
  | nil => exact restoreEc_nil P ec s
  | cons x xs ih =>
      have hrun := hP.protectEc_run x ec s
      rw [List.reverse_cons]
      rcases hf : f x s with ⟨_ | e, s'⟩
      · rw [hf] at hrun
        rw [drain_of_success hf] at hcode ⊢
        rw [restoreEc_concat hec hrun]
        exact ih s' hcode
      · rw [hf] at hrun
        rw [drain_of_failure hf] at hcode ⊢
        have hset : ({ value := e.code } : ErrorCode).isSet = true :=
          bne_iff_ne.mpr (hcode e rfl)
        rw [restoreEc_concat_set hset hrun, List.reverse_cons]
        rfl

theorem Platform.Attempts.restoreEc_eq (hP : P.Attempts f) {ec : ErrorCode}
    (hec : ec.isSet = false) (xs : List OldProtStorage) (s : σ) :
    ProtectionGuard.restoreEc P ⟨xs.reverse⟩ ec s
      = ((.ok (protectOutcomeEc ec (drain f xs s).1), ⟨(drain f xs s).2.1.reverse⟩),
        (drain f xs s).2.2) := by
  refine hP.toCalls.restoreEc_eq hec xs s ?_
  intro e he
  obtain ⟨x, s', hfail⟩ := drain_eq_some f xs s he
  exact hP.code_ne x s' e hfail

/-- Entries that are all written empty the guard, and `restore` does not fail. -/
theorem Platform.Calls.restore_of_drain (hP : P.Calls f) {old : List OldProtStorage} {s s' : σ}
    (hd : drain f old.reverse s = (none, [], s')) :
    ProtectionGuard.restore P ⟨old⟩ s = ((.ok (), ⟨[]⟩), s') := by
  have heq := hP.restore_eq old.reverse s
  rw [List.reverse_reverse, hd] at heq
  exact heq

theorem Platform.Calls.restoreEc_of_drain (hP : P.Calls f) {old : List OldProtStorage}
    {s s' : σ} {ec : ErrorCode} (hec : ec.isSet = false)
    (hd : drain f old.reverse s = (none, [], s')) :
    ProtectionGuard.restoreEc P ⟨old⟩ ec s = ((.ok ec, ⟨[]⟩), s') := by
  have heq := hP.restoreEc_eq hec old.reverse s (by rw [hd]; exact fun _ h => nomatch h)
  rw [List.reverse_reverse, hd] at heq
  exact heq

/-- **`restore(ec)` with `ec` already set** gives up behind its first call, whatever
    the outcome of that. -/
theorem Platform.Attempts.restoreEc_stale (hP : P.Attempts f) {ec : ErrorCode}
    (hec : ec.isSet = true) (old : List OldProtStorage) (x : OldProtStorage) (s : σ) :
    ProtectionGuard.restoreEc P ⟨old ++ [x]⟩ ec s
      = ((.ok (protectOutcomeEc ec (f x s).1), ⟨old ++ [x]⟩), (f x s).2) := by
  exact restoreEc_concat_set (hP.isSet_of_stale hec x s) (hP.protectEc_run x ec s)

/-! ## A log of the calls -/

/-- A system with a log of the `protect` calls. -/
abbrev Logged (σ : Type) := σ × List (Call OldProtStorage Failure)

/-- Runs a call on the system and appends it to the log. -/
def logged {ρ : Type} (f : Attempt OldProtStorage Failure σ) (x : OldProtStorage) (m : OsM σ ρ) :
    OsM (Logged σ) ρ :=
  ExceptT.mk (fun c => ((m.run c.1).1, ((m.run c.1).2, c.2 ++ [⟨x, (f x c.1).1⟩])))

/-- The platform with a log of its `protect` calls and their outcomes. -/
def Platform.logged (P : Platform σ) (f : Attempt OldProtStorage Failure σ) :
    Platform (Logged σ) where
  win32 := P.win32
  pageSize := P.pageSize
  protect := fun first last prot =>
    VmUtils.logged f ⟨first.setWidth 64, last.setWidth 64, prot.native⟩ (P.protect first last prot)
  protectEc := fun first last prot ec =>
    VmUtils.logged f ⟨first.setWidth 64, last.setWidth 64, prot.native⟩
      (P.protectEc first last prot ec)

/-- With the log the operation is the one that records its calls. -/
theorem Platform.Attempts.logged (hP : P.Attempts f) : (P.logged f).Attempts (recorded f) := by
  have hentry : ∀ x : OldProtStorage,
      (⟨x.beginAddr.setWidth 64, x.endAddr.setWidth 64, x.prot⟩ : OldProtStorage) = x := by
    intro x
    rw [BitVec.setWidth_eq, BitVec.setWidth_eq]
  refine ⟨⟨?_, ?_⟩, ?_⟩
  · intro x c
    show (((P.protect x.beginAddr x.endAddr ⟨x.prot⟩).run c.1).1, _) = _
    rw [hP.protect_run, hentry]
    rfl
  · intro x ec c
    show (((P.protectEc x.beginAddr x.endAddr ⟨x.prot⟩ ec).run c.1).1, _) = _
    rw [hP.protectEc_run, hentry]
    rfl
  · intro x c e he
    exact hP.code_ne x c.1 e he

/-! ## Sequences of calls -/

/-- The calls that can be made on a guard. -/
inductive GuardCall where
  | restore
  | restoreEc (ec : ErrorCode)
  | release
  deriving DecidableEq, Repr

/-- The call: what it reports, `ec` being clear where there is none, the guard and
    the system behind it. -/
def GuardCall.run (P : Platform σ) : GuardCall → ProtectionGuard × σ →
    Except Exn ErrorCode × (ProtectionGuard × σ)
  | .restore, (g, s) =>
      let r := g.restore P s
      (r.1.1.map (fun _ => {}), (r.1.2, r.2))
  | .restoreEc ec, (g, s) =>
      let r := g.restoreEc P ec s
      (r.1.1, (r.1.2, r.2))
  | .release, (g, s) => (.ok {}, (g.release, s))

/-- A sequence of calls, whatever each of them reports. -/
def runCalls (P : Platform σ) (calls : List GuardCall) (c : ProtectionGuard × σ) :
    ProtectionGuard × σ :=
  calls.foldl (fun c call => (call.run P c).2) c

/-- The call has returned without an error. -/
def Finished (r : Except Exn ErrorCode) : Prop := ∃ ec, r = .ok ec ∧ ec.isSet = false

/-- What one call does to the vector, and the `protect` calls it makes. -/
structure CallEffect (call : GuardCall) (old kept : List OldProtStorage)
    (calls : List (Call OldProtStorage Failure)) (report : Except Exn ErrorCode) : Prop where
  released : call = .release → kept = [] ∧ calls = []
  drained : call ≠ .release → Drained old kept calls
  finished : Finished report → kept = []

/-- **One call of the guard.** -/
theorem GuardCall.run_effect (hP : P.Attempts f) (call : GuardCall) (g : ProtectionGuard)
    (c : Logged σ) :
    ∃ calls, (call.run (P.logged f) (g, c)).2.2.2 = c.2 ++ calls
      ∧ CallEffect call g.old (call.run (P.logged f) (g, c)).2.1.old calls
        (call.run (P.logged f) (g, c)).1 := by
  obtain ⟨old⟩ := g
  obtain ⟨xs, rfl⟩ : ∃ xs : List OldProtStorage, old = xs.reverse :=
    ⟨old.reverse, (List.reverse_reverse old).symm⟩
  obtain ⟨calls, hlog, hdrained⟩ := drain_drained f xs c
  cases call with
  | restore =>
      simp only [GuardCall.run, hP.logged.restore_eq]
      refine ⟨calls, hlog, ⟨(fun h => nomatch h), fun _ => hdrained, ?_⟩⟩
      rintro ⟨ec, hok, -⟩
      cases hd : (drain (recorded f) xs c).1 with
      | none => rw [drain_eq_none _ _ _ hd, List.reverse_nil]
      | some e =>
          rw [hd] at hok
          exact nomatch hok
  | restoreEc ec =>
      cases hec : ec.isSet with
      | false =>
          simp only [GuardCall.run, hP.logged.restoreEc_eq hec]
          refine ⟨calls, hlog, ⟨(fun h => nomatch h), fun _ => hdrained, ?_⟩⟩
          rintro ⟨ec', hok, hclear⟩
          obtain rfl := Except.ok.inj hok
          rw [hP.logged.drain_of_clear hclear, List.reverse_nil]
      | true =>
          -- no success clears `ec`, so one `protect` is all the call makes
          cases xs with
          | nil =>
              simp only [GuardCall.run, List.reverse_nil, restoreEc_nil]
              exact ⟨[], (List.append_nil _).symm, ⟨(fun h => nomatch h), fun _ => drained_nil,
                fun _ => rfl⟩⟩
          | cons x xs =>
              simp only [GuardCall.run, List.reverse_cons, hP.logged.restoreEc_stale hec]
              refine ⟨[⟨x, (f x c.1).1⟩], rfl, ⟨(fun h => nomatch h),
                fun _ => drained_single _ x _, ?_⟩⟩
              rintro ⟨ec', hok, hclear⟩
              obtain rfl := Except.ok.inj hok
              rw [hP.logged.isSet_of_stale hec x c] at hclear
              exact absurd hclear.symm Bool.false_ne_true
  | release =>
      exact ⟨[], (List.append_nil _).symm, ⟨fun _ => ⟨rfl, rfl⟩, fun h => absurd rfl h,
        fun _ => rfl⟩⟩

/-- The log changes nothing else about a call. -/
theorem GuardCall.run_logged (hP : P.Attempts f) (call : GuardCall) (g : ProtectionGuard)
    (c : Logged σ) :
    call.run P (g, c.1) = ((call.run (P.logged f) (g, c)).1,
      ((call.run (P.logged f) (g, c)).2.1, (call.run (P.logged f) (g, c)).2.2.1)) := by
  obtain ⟨old⟩ := g
  obtain ⟨xs, rfl⟩ : ∃ xs : List OldProtStorage, old = xs.reverse :=
    ⟨old.reverse, (List.reverse_reverse old).symm⟩
  obtain ⟨h1, h2, h3⟩ := drain_recorded f xs c
  cases call with
  | restore => simp only [GuardCall.run, hP.restore_eq, hP.logged.restore_eq, h1, h2, h3]
  | restoreEc ec =>
      cases hec : ec.isSet with
      | false =>
          simp only [GuardCall.run, hP.restoreEc_eq hec, hP.logged.restoreEc_eq hec, h1, h2, h3]
      | true =>
          cases xs with
          | nil => simp only [GuardCall.run, List.reverse_nil, restoreEc_nil]
          | cons x xs =>
              simp only [GuardCall.run, List.reverse_cons, hP.restoreEc_stale hec,
                hP.logged.restoreEc_stale hec]
              rfl
  | release => rfl

theorem runCalls_cons (P : Platform σ) (call : GuardCall) (calls : List GuardCall)
    (c : ProtectionGuard × σ) : runCalls P (call :: calls) c = runCalls P calls (call.run P c).2 :=
  rfl

theorem runCalls_logged (hP : P.Attempts f) (calls : List GuardCall) (g : ProtectionGuard)
    (c : Logged σ) :
    runCalls P calls (g, c.1) = ((runCalls (P.logged f) calls (g, c)).1,
      (runCalls (P.logged f) calls (g, c)).2.1) := by
  induction calls generalizing g c with
  | nil => rfl
  | cons call calls ih =>
      rw [runCalls_cons, runCalls_cons, call.run_logged hP]
      exact ih _ _

/-- A call keeps a prefix. -/
theorem CallEffect.isPrefix {call : GuardCall} {old kept : List OldProtStorage}
    {calls : List (Call OldProtStorage Failure)} {report : Except Exn ErrorCode}
    (h : CallEffect call old kept calls report) : kept <+: old := by
  by_cases hrelease : call = .release
  · rw [(h.released hrelease).1]
    exact List.nil_prefix
  · exact (h.drained hrelease).isPrefix

/-- **At all times the vector is a prefix** of what was saved. -/
theorem runCalls_isPrefix (hP : P.Attempts f) (calls : List GuardCall) (g : ProtectionGuard)
    (c : Logged σ) : (runCalls (P.logged f) calls (g, c)).1.old <+: g.old := by
  induction calls generalizing g c with
  | nil => exact List.prefix_refl _
  | cons call calls ih =>
      obtain ⟨_, -, heffect⟩ := call.run_effect hP g c
      rw [runCalls_cons]
      exact (ih _ _).trans heffect.isPrefix

/-- On an empty guard no call does anything. -/
theorem runCalls_empty (P : Platform σ) (calls : List GuardCall) (s : σ) :
    runCalls P calls (⟨[]⟩, s) = (⟨[]⟩, s) := by
  induction calls with
  | nil => rfl
  | cons call calls ih =>
      have hcall : (call.run P (⟨[]⟩, s)).2 = (⟨[]⟩, s) := by
        cases call with
        | restore =>
            simp only [GuardCall.run, restore_nil]
        | restoreEc ec => simp only [GuardCall.run, restoreEc_nil]
        | release => rfl
      rw [runCalls_cons, hcall]
      exact ih

theorem destroy_empty (P : Platform σ) (s : σ) :
    (ProtectionGuard.destroy P ⟨[]⟩).run s = (.ok (), s) := rfl

/-- **The calls of a guard.**  Behind any sequence `before` of calls, whatever the
    outcomes of the `protect` calls, `_old` is a prefix of what was saved, and one
    more call

    - of `restore` removes entries from the back, each with a successful `protect`
      of exactly that entry and behind the removal of all entries behind it, and
      makes at most one more `protect` call, for the entry then at the back;
    - begins with the entry at the back, and leaves an entry whose `protect` fails
      at the back;
    - if it is `release` or reports no error, is the last to make a `protect` call,
      the destructor included.

    The log is nothing but a log: without it guard and system are the same. -/
theorem guardCalls_spec (P : Platform σ) (f : Attempt OldProtStorage Failure σ)
    (hP : P.Attempts f) (old : List OldProtStorage) (s : σ) (before : List GuardCall)
    (call : GuardCall) :
    ∃ g c report g' c' calls,
      runCalls (P.logged f) before (⟨old⟩, (s, [])) = (g, c)
        ∧ call.run (P.logged f) (g, c) = (report, (g', c'))
        ∧ (runCalls P before (⟨old⟩, s) = (g, c.1) ∧ call.run P (g, c.1) = (report, (g', c'.1)))
        ∧ (g.old <+: old ∧ g'.old <+: g.old)
        ∧ (c'.2 = c.2 ++ calls ∧ CallEffect call g.old g'.old calls report)
        ∧ (∀ x ∈ calls, x.failure ≠ none → g'.old.getLast? = some x.item)
        ∧ (call = .release ∨ Finished report → ∀ after,
          runCalls (P.logged f) after (g', c') = (g', c')
            ∧ (g'.destroy (P.logged f)).run c' = (.ok (), c')) := by
  generalize hstart : (s, ([] : List (Call OldProtStorage Failure))) = c₀
  have hkept := runCalls_isPrefix hP before ⟨old⟩ c₀
  have hbefore := runCalls_logged hP before ⟨old⟩ c₀
  rcases hrun : runCalls (P.logged f) before (⟨old⟩, c₀) with ⟨g, c⟩
  rw [hrun] at hkept hbefore
  obtain ⟨calls, hlog, heffect⟩ := call.run_effect hP g c
  have hcall := call.run_logged hP g c
  rcases hres : call.run (P.logged f) (g, c) with ⟨report, g', c'⟩
  rw [hres] at hlog heffect hcall
  refine ⟨g, c, report, g', c', calls, rfl, hres, ⟨?_, hcall⟩, ⟨hkept, heffect.isPrefix⟩,
    ⟨hlog, heffect⟩, ?_, ?_⟩
  · rw [← hbefore, ← hstart]
  · intro x hx hfail
    by_cases hrelease : call = .release
    · rw [(heffect.released hrelease).2] at hx
      exact absurd hx List.not_mem_nil
    · exact (heffect.drained hrelease).failure_kept hx hfail
  · intro hdone after
    -- such a call leaves no entry, and without one no call reaches the system
    have hempty : g'.old = [] := by
      rcases hdone with hrelease | hfinished
      · exact (heffect.released hrelease).1
      · exact heffect.finished hfinished
    obtain ⟨old'⟩ := g'
    obtain rfl : old' = [] := hempty
    exact ⟨runCalls_empty _ after c', destroy_empty _ c'⟩

/-- Two saved entries, the second one of a page that is not mapped any more. -/
def sampleEntries : List OldProtStorage := [⟨0x1000, 0x2000, 1⟩, ⟨0x5000, 0x6000, 3⟩]

theorem guardCalls_spec_sample :
    ∃ g c report g' c' calls,
      runCalls ((walkingPosix samplePageSize).platform.logged
          (walkingPosix samplePageSize).attempt) [.restoreEc {}]
          (⟨sampleEntries⟩, (sampleState, [])) = (g, c)
        ∧ GuardCall.restore.run ((walkingPosix samplePageSize).platform.logged
          (walkingPosix samplePageSize).attempt) (g, c) = (report, (g', c'))
        ∧ (runCalls (walkingPosix samplePageSize).platform [.restoreEc {}]
            (⟨sampleEntries⟩, sampleState) = (g, c.1)
          ∧ GuardCall.restore.run (walkingPosix samplePageSize).platform (g, c.1)
            = (report, (g', c'.1)))
        ∧ (g.old <+: sampleEntries ∧ g'.old <+: g.old)
        ∧ (c'.2 = c.2 ++ calls ∧ CallEffect .restore g.old g'.old calls report)
        ∧ (∀ x ∈ calls, x.failure ≠ none → g'.old.getLast? = some x.item)
        ∧ (GuardCall.restore = .release ∨ Finished report → ∀ after,
          runCalls ((walkingPosix samplePageSize).platform.logged
              (walkingPosix samplePageSize).attempt) after (g', c') = (g', c')
            ∧ (g'.destroy ((walkingPosix samplePageSize).platform.logged
              (walkingPosix samplePageSize).attempt)).run c' = (.ok (), c')) :=
  guardCalls_spec (walkingPosix samplePageSize).platform (walkingPosix samplePageSize).attempt
    ((walkingPosix samplePageSize).platform_attempts (walkingPosix_errno _)) sampleEntries
    sampleState [.restoreEc {}] .restore

end VmUtils
