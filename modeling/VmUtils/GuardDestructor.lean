import VmUtils.GuardCalls

/-! # The destructor of a guard

    `~protection_guard()` tries every saved entry once, from the front, whatever
    becomes of the others (`Platform.Calls.destroy_eq`).  So over the whole life
    of a guard no saved entry is lost: behind any calls of `restore()` and
    `restore(ec)` the entries still kept are the ones the destructor tries, and the
    others have had their one successful call (`guard_life`).

    With `VMU_HANDLE_PG_DESTRUCTOR_FAILURE` the destructor calls a handler behind
    each entry after which its local `ec` is set.  Nothing clears `ec` between the
    entries, so that the handler also runs for entries that were restored
    (`destroyHandling_reports`). -/

namespace VmUtils

open RetryStack

variable {σ : Type} {P : Platform σ} {f : Attempt OldProtStorage Failure σ}

/-! ## The loop -/

theorem protectOutcomeEc_or (ec : ErrorCode) (r r' : Option Failure) :
    protectOutcomeEc ec (r'.or r) = protectOutcomeEc (protectOutcomeEc ec r) r' := by
  cases r' with
  | none => rfl
  | some e => rfl

/-- The loop of the destructor carries the last failure in `ec`. -/
theorem Platform.Calls.foldlM_run (hP : P.Calls f) (old : List OldProtStorage)
    (ec : ErrorCode) (s : σ) :
    (old.foldlM (fun ec ele => P.protectEc ele.beginAddr ele.endAddr ⟨ele.prot⟩ ec) ec).run s
      = (.ok (protectOutcomeEc ec (sweep f old s).1), (sweep f old s).2) := by
  induction old generalizing ec s with
  | nil => rfl
  | cons x old ih =>
      have hstep := hP.protectEc_run x ec s
      rw [List.foldlM_cons, sweep_cons, protectOutcomeEc_or, ← ih]
      generalize P.protectEc x.beginAddr x.endAddr ⟨x.prot⟩ ec = m at hstep
      show (ExceptT.bind m _).run s = _
      exact bind_run_ok hstep _

/-- **The destructor** tries every entry and returns. -/
theorem Platform.Calls.destroy_eq (hP : P.Calls f) (g : ProtectionGuard) (s : σ) :
    (g.destroy P).run s = (.ok (), (sweep f g.old s).2) := by
  rw [ProtectionGuard.destroy]
  refine noexcept_run_ok ?_
  exact bind_run_ok (hP.foldlM_run g.old {} s) _

/-- If all entries are written the destructor leaves what the writing leaves. -/
theorem Platform.Calls.destroy_of_drain (hP : P.Calls f) {g : ProtectionGuard} {s s' : σ}
    (hd : drain f g.old s = (none, [], s')) : (g.destroy P).run s = (.ok (), s') := by
  rw [hP.destroy_eq, sweep_of_drain g.old s (congrArg Prod.fst hd), hd]

/-- The calls of the destructor in the log. -/
theorem Platform.Attempts.destroy_logged (hP : P.Attempts f) (g : ProtectionGuard)
    (c : Logged σ) :
    (g.destroy (P.logged f)).run c
      = (.ok (), ((sweep f g.old c.1).2, c.2 ++ sweepCalls f g.old c.1)) := by
  rw [hP.logged.destroy_eq, sweep_recorded]

/-! ## The life of a guard -/

/-- No `restore(ec)` among the calls gets an `ec` that is set. -/
def ClearCodes (calls : List GuardCall) : Prop :=
  ∀ ec, GuardCall.restoreEc ec ∈ calls → ec.isSet = false

theorem ClearCodes.tail {call : GuardCall} {calls : List GuardCall}
    (h : ClearCodes (call :: calls)) : ClearCodes calls :=
  fun ec hec => h ec (List.mem_cons_of_mem _ hec)

/-- One call takes its successes off the back of the vector. -/
theorem GuardCall.run_successes (hP : P.Attempts f) (call : GuardCall)
    (hclear : ∀ ec, call = .restoreEc ec → ec.isSet = false) (g : ProtectionGuard)
    (c : Logged σ) :
    ∃ calls discarded, (call.run (P.logged f) (g, c)).2.2.2 = c.2 ++ calls
      ∧ g.old = (call.run (P.logged f) (g, c)).2.1.old ++ discarded ++ (successes calls).reverse
      ∧ (call ≠ .release → discarded = [])
      ∧ (call = .release → (call.run (P.logged f) (g, c)).2.1.old = []) := by
  obtain ⟨old⟩ := g
  obtain ⟨xs, rfl⟩ : ∃ xs : List OldProtStorage, old = xs.reverse :=
    ⟨old.reverse, (List.reverse_reverse old).symm⟩
  obtain ⟨calls, hlog, hxs⟩ := drain_successes f xs c
  have hold : xs.reverse = (drain (recorded f) xs c).2.1.reverse ++ []
      ++ (successes calls).reverse := by
    rw [List.append_nil, ← List.reverse_append, ← hxs]
  cases call with
  | restore =>
      simp only [GuardCall.run, hP.logged.restore_eq]
      refine ⟨calls, [], hlog, hold, fun _ => rfl, ?_⟩
      intro h
      cases h
  | restoreEc ec =>
      simp only [GuardCall.run, hP.logged.restoreEc_eq (hclear ec rfl)]
      refine ⟨calls, [], hlog, hold, fun _ => rfl, ?_⟩
      intro h
      cases h
  | release =>
      refine ⟨[], xs.reverse, (List.append_nil _).symm, (List.append_nil _).symm, ?_, fun _ => rfl⟩
      intro h
      exact absurd rfl h

/-- So does a sequence of calls, until a `release()` discards what is left. -/
theorem runCalls_successes (hP : P.Attempts f) (calls : List GuardCall)
    (hclear : ClearCodes calls) (g : ProtectionGuard) (c : Logged σ) :
    ∃ made discarded, (runCalls (P.logged f) calls (g, c)).2.2 = c.2 ++ made
      ∧ g.old = (runCalls (P.logged f) calls (g, c)).1.old ++ discarded ++ (successes made).reverse
      ∧ (.release ∉ calls → discarded = [])
      ∧ (.release ∈ calls → (runCalls (P.logged f) calls (g, c)).1.old = []) := by
  induction calls generalizing g c with
  | nil =>
      refine ⟨[], [], (List.append_nil _).symm, ?_, fun _ => rfl, ?_⟩
      · rw [List.append_nil]
        exact (List.append_nil _).symm
      · intro h
        cases h
  | cons call calls ih =>
      obtain ⟨made, discarded, hlog, hold, hnot, hrel⟩ :=
        call.run_successes hP (fun ec h => hclear ec (h ▸ List.mem_cons_self ..)) g c
      rw [runCalls_cons]
      rcases hrun : call.run (P.logged f) (g, c) with ⟨report, g', c'⟩
      rw [hrun] at hlog hold hrel
      obtain ⟨made', discarded', hlog', hold', hnot', hrel'⟩ := ih hclear.tail g' c'
      by_cases hcall : call = .release
      · -- nothing is left for the rest of the calls
        have hempty : g'.old = [] := hrel hcall
        obtain ⟨old'⟩ := g'
        obtain rfl : old' = [] := hempty
        have hidle := runCalls_empty (P.logged f) calls c'
        refine ⟨made, discarded, ?_, ?_, ?_, ?_⟩
        · show (runCalls (P.logged f) calls (⟨[]⟩, c')).2.2 = _
          rw [hidle]
          exact hlog
        · show g.old = (runCalls (P.logged f) calls (⟨[]⟩, c')).1.old ++ _ ++ _
          rw [hidle]
          exact hold
        · intro h
          exact absurd (hcall ▸ List.mem_cons_self ..) h
        · intro _
          show (runCalls (P.logged f) calls (⟨[]⟩, c')).1.old = []
          rw [hidle]
      · rw [hnot hcall, List.append_nil] at hold
        refine ⟨made ++ made', discarded', ?_, ?_, ?_, ?_⟩
        · rw [hlog', hlog, List.append_assoc]
        · rw [hold, hold', successes_append, List.reverse_append]
          simp only [List.append_assoc]
        · intro h
          exact hnot' (fun hmem => h (List.mem_cons_of_mem _ hmem))
        · intro h
          rcases List.mem_cons.mp h with heq | hmem
          · exact absurd heq.symm hcall
          · exact hrel' hmem

/-- **The life of a guard**: any calls of it with a clear `ec`, and then its
    destructor.  The successful calls are those of the entries that left the
    vector, from its back, and the destructor calls once for each entry that is
    still there, in order.  Only `release()` discards entries, and then nothing is
    left for the destructor. -/
theorem guard_life (P : Platform σ) (f : Attempt OldProtStorage Failure σ) (hP : P.Attempts f)
    (old : List OldProtStorage) (s : σ) (calls : List GuardCall) (hclear : ClearCodes calls) :
    ∃ g s₁ s₂ made last discarded,
      runCalls (P.logged f) calls (⟨old⟩, (s, [])) = (g, (s₁, made))
        ∧ (g.destroy (P.logged f)).run (s₁, made) = (.ok (), (s₂, made ++ last))
        ∧ (runCalls P calls (⟨old⟩, s) = (g, s₁) ∧ (g.destroy P).run s₁ = (.ok (), s₂))
        ∧ last.map Call.item = g.old
        ∧ old = g.old ++ discarded ++ (successes made).reverse
        ∧ (.release ∉ calls → discarded = [])
        ∧ (.release ∈ calls → g.old = []) := by
  obtain ⟨made, discarded, hlog, hold, hnot, hrel⟩ :=
    runCalls_successes hP calls hclear ⟨old⟩ (s, [])
  have hplain := runCalls_logged hP calls ⟨old⟩ (s, [])
  rcases hrun : runCalls (P.logged f) calls (⟨old⟩, (s, [])) with ⟨g, s₁, log⟩
  rw [hrun] at hlog hold hrel hplain
  obtain rfl : log = made := hlog
  refine ⟨g, s₁, (sweep f g.old s₁).2, log, sweepCalls f g.old s₁, discarded, rfl,
    hP.destroy_logged g (s₁, log), ⟨hplain, hP.destroy_eq g s₁⟩, sweepCalls_items f g.old s₁, hold,
    hnot, hrel⟩

/-- Two entries, the second of a page that is not mapped any more: `restore(ec)`
    fails at it, and the destructor tries both. -/
theorem guard_life_sample :
    ∃ g s₁ s₂ made last discarded,
      runCalls ((walkingPosix samplePageSize).platform.logged
          (walkingPosix samplePageSize).attempt) [.restoreEc {}, .restore]
          (⟨sampleEntries⟩, (sampleState, [])) = (g, (s₁, made))
        ∧ (g.destroy ((walkingPosix samplePageSize).platform.logged
            (walkingPosix samplePageSize).attempt)).run (s₁, made) = (.ok (), (s₂, made ++ last))
        ∧ (runCalls (walkingPosix samplePageSize).platform [.restoreEc {}, .restore]
            (⟨sampleEntries⟩, sampleState) = (g, s₁)
          ∧ (g.destroy (walkingPosix samplePageSize).platform).run s₁ = (.ok (), s₂))
        ∧ last.map Call.item = g.old
        ∧ sampleEntries = g.old ++ discarded ++ (successes made).reverse
        ∧ (.release ∉ [GuardCall.restoreEc {}, .restore] → discarded = [])
        ∧ (.release ∈ [GuardCall.restoreEc {}, .restore] → g.old = []) :=
  guard_life (walkingPosix samplePageSize).platform (walkingPosix samplePageSize).attempt
    ((walkingPosix samplePageSize).platform_attempts (walkingPosix_errno _)) sampleEntries
    sampleState [.restoreEc {}, .restore] (by
      intro ec hec
      simp only [List.mem_cons, GuardCall.restoreEc.injEq, reduceCtorEq, List.not_mem_nil,
        or_false] at hec
      rw [hec]
      rfl)

/-! ## A handler for failures -/

/-- The body of the loop in the destructor, `handler` standing for
    `VMU_HANDLE_PG_DESTRUCTOR_FAILURE`. -/
def handlingBody (P : Platform σ) (handler : ErrorCode → OsM σ Unit) (ec : ErrorCode)
    (ele : OldProtStorage) : OsM σ ErrorCode := do
  let ec ← P.protectEc ele.beginAddr ele.endAddr ⟨ele.prot⟩ ec
  if ec.isSet then handler ec
  return ec

/-- `~protection_guard()` with `VMU_HANDLE_PG_DESTRUCTOR_FAILURE` defined. -/
def ProtectionGuard.destroyHandling (P : Platform σ) (handler : ErrorCode → OsM σ Unit)
    (g : ProtectionGuard) : OsM σ Unit :=
  OsM.noexcept do
    let _ ← g.old.foldlM (handlingBody P handler) ({} : ErrorCode)
    return

/-- A system beside the codes a handler was given. -/
abbrev Reporting (σ : Type) := σ × List ErrorCode

/-- The platform, leaving the codes alone. -/
def Platform.reporting (P : Platform σ) : Platform (Reporting σ) where
  win32 := P.win32
  pageSize := P.pageSize
  protect := fun first last prot =>
    ExceptT.mk (fun c => (((P.protect first last prot).run c.1).1,
      (((P.protect first last prot).run c.1).2, c.2)))
  protectEc := fun first last prot ec =>
    ExceptT.mk (fun c => (((P.protectEc first last prot ec).run c.1).1,
      (((P.protectEc first last prot ec).run c.1).2, c.2)))

/-- A handler that notes its argument. -/
def noteFailure (ec : ErrorCode) : OsM (Reporting σ) Unit :=
  ExceptT.mk (fun c => (.ok (), (c.1, c.2 ++ [ec])))

/-- The code of the latest failure behind each call, `ec` being the one in front. -/
def latestCodes (ec : ErrorCode) : List (Call OldProtStorage Failure) → List ErrorCode
  | [] => []
  | c :: calls => protectOutcomeEc ec c.failure :: latestCodes (protectOutcomeEc ec c.failure) calls

/-- A round that leaves `ec` clear does not call the handler. -/
theorem Platform.Attempts.handlingBody_clear (hP : P.Attempts f)
    (handler : ErrorCode → OsM σ Unit) {ec : ErrorCode} {x : OldProtStorage} {s : σ}
    (h : (protectOutcomeEc ec (f x s).1).isSet = false) :
    (handlingBody P handler ec x).run s = (.ok (protectOutcomeEc ec (f x s).1), (f x s).2) := by
  rw [handlingBody]
  refine (bind_run_ok (hP.protectEc_run x ec s) _).trans ?_
  rw [h]
  rfl

/-- A round that leaves `ec` set does. -/
theorem Platform.Attempts.handlingBody_set (hP : P.Attempts f)
    (handler : ErrorCode → OsM σ Unit) {ec : ErrorCode} {x : OldProtStorage} {s s' : σ}
    (h : (protectOutcomeEc ec (f x s).1).isSet = true)
    (hrun : (handler (protectOutcomeEc ec (f x s).1)).run (f x s).2 = (.ok (), s')) :
    (handlingBody P handler ec x).run s = (.ok (protectOutcomeEc ec (f x s).1), s') := by
  rw [handlingBody]
  refine (bind_run_ok (hP.protectEc_run x ec s) _).trans ?_
  rw [h]
  exact bind_run_ok hrun _

/-- An exception of the handler ends the round. -/
theorem Platform.Attempts.handlingBody_throws (hP : P.Attempts f)
    {handler : ErrorCode → OsM σ Unit} {ec : ErrorCode} {x : OldProtStorage} {s s' : σ} {ex : Exn}
    (h : (protectOutcomeEc ec (f x s).1).isSet = true)
    (hrun : (handler (protectOutcomeEc ec (f x s).1)).run (f x s).2 = (.error ex, s')) :
    (handlingBody P handler ec x).run s = (.error ex, s') := by
  rw [handlingBody]
  refine (bind_run_ok (hP.protectEc_run x ec s) _).trans ?_
  rw [h]
  exact bind_run_error hrun _

/-- Beside the codes the operation is the same. -/
theorem Platform.Attempts.reporting (hP : P.Attempts f) :
    P.reporting.Attempts (fun x c => ((f x c.1).1, ((f x c.1).2, c.2))) := by
  refine ⟨⟨?_, ?_⟩, fun x c e he => hP.code_ne x c.1 e he⟩
  · intro x c
    show (((P.protect x.beginAddr x.endAddr ⟨x.prot⟩).run c.1).1, _) = _
    rw [hP.protect_run]
  · intro x ec c
    show (((P.protectEc x.beginAddr x.endAddr ⟨x.prot⟩ ec).run c.1).1, _) = _
    rw [hP.protectEc_run]

/-- Once `ec` is set the handler is called for every entry. -/
theorem Platform.Attempts.handling_set (hP : P.Attempts f) (old : List OldProtStorage)
    {ec : ErrorCode} (hec : ec.isSet = true) (c : Reporting σ) :
    ∃ ec', (old.foldlM (handlingBody P.reporting noteFailure) ec).run c
      = (.ok ec', ((sweep f old c.1).2, c.2 ++ latestCodes ec (sweepCalls f old c.1))) := by
  induction old generalizing ec c with
  | nil =>
      refine ⟨ec, ?_⟩
      rw [sweepCalls, latestCodes, List.append_nil]
      rfl
  | cons x old ih =>
      have hset := hP.isSet_of_stale hec x c.1
      have hbody := hP.reporting.handlingBody_set noteFailure (s := c) hset rfl
      obtain ⟨ec', hrest⟩ := ih hset
        ((f x c.1).2, c.2 ++ [protectOutcomeEc ec (f x c.1).1])
      refine ⟨ec', ?_⟩
      rw [List.foldlM_cons]
      refine (bind_run_ok hbody _).trans (hrest.trans ?_)
      show (_, (_, (c.2 ++ [_]) ++ _)) = _
      rw [List.append_assoc]
      rfl

/-- With a clear `ec` it is not called in front of the first failure. -/
theorem Platform.Attempts.handling_clear (hP : P.Attempts f) (old : List OldProtStorage)
    (ec : ErrorCode) (hec : ec.isSet = false) (c : Reporting σ) :
    ∃ ec', (old.foldlM (handlingBody P.reporting noteFailure) ec).run c
      = (.ok ec', ((sweep f old c.1).2,
          c.2 ++ latestCodes ec ((sweepCalls f old c.1).dropWhile Call.Succeeded))) := by
  induction old generalizing ec c with
  | nil =>
      refine ⟨ec, ?_⟩
      rw [sweepCalls, List.dropWhile_nil, latestCodes, List.append_nil]
      rfl
  | cons x old ih =>
      rw [List.foldlM_cons, sweepCalls]
      cases hf : (f x c.1).1 with
      | none =>
          have hclear : (protectOutcomeEc ec (f x c.1).1).isSet = false := by
            rw [hf]
            exact hec
          have hbody := hP.reporting.handlingBody_clear noteFailure (s := c) hclear
          obtain ⟨ec', hrest⟩ := ih _ hclear ((f x c.1).2, c.2)
          rw [hf] at hrest
          refine ⟨ec', (bind_run_ok hbody _).trans ?_⟩
          rw [hf]
          exact hrest
      | some e =>
          have hset := hP.isSet_of_failure hf ec
          have hbody := hP.reporting.handlingBody_set noteFailure (s := c) hset rfl
          obtain ⟨ec', hrest⟩ := hP.handling_set old hset
            ((f x c.1).2, c.2 ++ [protectOutcomeEc ec (f x c.1).1])
          refine ⟨ec', (bind_run_ok hbody _).trans (hrest.trans ?_)⟩
          show (_, (_, (c.2 ++ [_]) ++ _)) = _
          rw [List.append_assoc, hf]
          rfl

/-- A handler that throws does so at the first failure. -/
theorem Platform.Attempts.handling_throws (hP : P.Attempts f) {handler : ErrorCode → OsM σ Unit}
    (hthrow : ∀ ec s, ∃ ex s', (handler ec).run s = (.error ex, s'))
    (old : List OldProtStorage) (ec : ErrorCode) (hec : ec.isSet = false) (s : σ) :
    (∃ ex s', (old.foldlM (handlingBody P handler) ec).run s = (.error ex, s')
        ∧ ∃ c ∈ sweepCalls f old s, c.failure ≠ none)
      ∨ (∃ s', (old.foldlM (handlingBody P handler) ec).run s = (.ok ec, s')
        ∧ ∀ c ∈ sweepCalls f old s, c.failure = none) := by
  induction old generalizing ec s with
  | nil =>
      refine Or.inr ⟨s, rfl, ?_⟩
      intro c hc
      cases hc
  | cons x old ih =>
      rw [List.foldlM_cons, sweepCalls]
      cases hf : (f x s).1 with
      | none =>
          have hclear : (protectOutcomeEc ec (f x s).1).isSet = false := by
            rw [hf]
            exact hec
          have hbody := hP.handlingBody_clear handler hclear
          rw [hf] at hbody
          rcases ih ec hec (f x s).2 with ⟨ex, s', hrest, c, hc, hfail⟩ | ⟨s', hrest, hall⟩
          · exact Or.inl ⟨ex, s', (bind_run_ok hbody _).trans hrest, c,
              List.mem_cons_of_mem _ hc, hfail⟩
          · refine Or.inr ⟨s', (bind_run_ok hbody _).trans hrest, ?_⟩
            intro c hc
            rcases List.mem_cons.mp hc with rfl | hc
            · rfl
            · exact hall c hc
      | some e =>
          have hset := hP.isSet_of_failure hf ec
          obtain ⟨ex, s', hrun⟩ := hthrow (protectOutcomeEc ec (f x s).1) (f x s).2
          refine Or.inl ⟨ex, s', bind_run_error (hP.handlingBody_throws hset hrun) _,
            ⟨x, some e⟩, List.mem_cons_self .., Option.some_ne_none e⟩

/-- **The destructor with a handler** makes the same calls.  The handler gets, for
    every entry from the first failing one on, the code of the latest failure; if it
    throws, the program ends exactly when some entry fails. -/
theorem destroyHandling_reports (P : Platform σ) (f : Attempt OldProtStorage Failure σ)
    (hP : P.Attempts f) (g : ProtectionGuard) (s : σ) :
    ∃ s' calls,
      (g.destroy (P.logged f)).run (s, []) = (.ok (), (s', calls))
        ∧ calls.map Call.item = g.old
        ∧ (g.destroyHandling P.reporting noteFailure).run (s, [])
          = (.ok (), (s', latestCodes {} (calls.dropWhile Call.Succeeded)))
        ∧ ∀ handler : ErrorCode → OsM σ Unit,
          (∀ ec t, ∃ ex t', (handler ec).run t = (.error ex, t')) →
          (((g.destroyHandling P handler).run s).1 = .error .terminate
            ↔ ∃ c ∈ calls, c.failure ≠ none) := by
  refine ⟨(sweep f g.old s).2, sweepCalls f g.old s, hP.destroy_logged g (s, []),
    sweepCalls_items f g.old s, ?_, ?_⟩
  · obtain ⟨ec', hrun⟩ := hP.handling_clear g.old {} rfl (s, [])
    rw [ProtectionGuard.destroyHandling]
    refine noexcept_run_ok ?_
    exact bind_run_ok hrun _
  · intro handler hthrow
    have hfst : ∀ m : OsM σ Unit, ((OsM.noexcept m).run s).1 = noexcept (m.run s).1 :=
      fun _ => rfl
    rw [ProtectionGuard.destroyHandling, hfst]
    rcases hP.handling_throws hthrow g.old {} rfl s with
      ⟨ex, s', hrun, hfail⟩ | ⟨s', hrun, hall⟩
    · rw [bind_run_error hrun]
      exact iff_of_true rfl hfail
    · rw [bind_run_ok hrun]
      refine iff_of_false ?_ ?_
      · intro h
        cases h
      · rintro ⟨c, hc, hne⟩
        exact hne (hall c hc)

theorem destroyHandling_reports_sample :
    ∃ s' calls,
      ((ProtectionGuard.mk sampleEntries).destroy ((walkingPosix samplePageSize).platform.logged
          (walkingPosix samplePageSize).attempt)).run (sampleState, []) = (.ok (), (s', calls))
        ∧ calls.map Call.item = sampleEntries
        ∧ ((ProtectionGuard.mk sampleEntries).destroyHandling
            (walkingPosix samplePageSize).platform.reporting noteFailure).run (sampleState, [])
          = (.ok (), (s', latestCodes {} (calls.dropWhile Call.Succeeded)))
        ∧ ∀ handler : ErrorCode → OsM PageMap Unit,
          (∀ ec t, ∃ ex t', (handler ec).run t = (.error ex, t')) →
          ((((ProtectionGuard.mk sampleEntries).destroyHandling
              (walkingPosix samplePageSize).platform handler).run sampleState).1 = .error .terminate
            ↔ ∃ c ∈ calls, c.failure ≠ none) :=
  destroyHandling_reports (walkingPosix samplePageSize).platform
    (walkingPosix samplePageSize).attempt
    ((walkingPosix samplePageSize).platform_attempts (walkingPosix_errno _)) ⟨sampleEntries⟩
    sampleState

end VmUtils
