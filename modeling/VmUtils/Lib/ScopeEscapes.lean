import VmUtils.Lib.Overlay

/-! # Programs with scopes that let changes escape

    Besides entering and leaving scopes a program can change cells on its own,
    abandon an open scope, or leave one that puts back too little.  A change
    escapes unless a scope that stays open covers the cell: what unwinding gives
    there depends on the outermost such scope alone (`unwind_apply`).  So a run
    keeps, outside the cells that escaped on its way, what unwinding gives
    (`unwind_steps`). -/

namespace Overlay

open Classical

variable {ι α : Type}

/-- The cells of the open scopes. -/
def covered (fs : List (Scope ι α)) : Set ι := {i | ∃ f ∈ fs, i ∈ f.cells}

/-- The scopes that cover a cell. -/
noncomputable def covering (i : ι) (fs : List (Scope ι α)) : List (Scope ι α) :=
  fs.filter (fun f => decide (i ∈ f.cells))

theorem covering_append (i : ι) (fs fs' : List (Scope ι α)) :
    covering i (fs ++ fs') = covering i fs ++ covering i fs' := List.filter_append ..

theorem covering_cons_of_mem {i : ι} {f : Scope ι α} (h : i ∈ f.cells) (fs : List (Scope ι α)) :
    covering i (f :: fs) = f :: covering i fs :=
  List.filter_cons_of_pos (decide_eq_true h)

theorem covering_cons_of_not_mem {i : ι} {f : Scope ι α} (h : i ∉ f.cells)
    (fs : List (Scope ι α)) : covering i (f :: fs) = covering i fs :=
  List.filter_cons_of_neg (fun hf => h (of_decide_eq_true hf))

theorem covering_ne_nil {i : ι} {fs : List (Scope ι α)} (h : i ∈ covered fs) :
    covering i fs ≠ [] := by
  obtain ⟨f, hf, hi⟩ := h
  exact List.ne_nil_of_mem (List.mem_filter.mpr ⟨hf, decide_eq_true hi⟩)

/-- **The outermost scope wins.** -/
theorem unwind_apply (i : ι) (fs : List (Scope ι α)) (s : ι → α) :
    unwind fs s i = ((covering i fs).getLast?.map (fun f => f.saved i)).getD (s i) := by
  induction fs generalizing s with
  | nil => rfl
  | cons f fs ih =>
      rw [unwind, ih]
      by_cases h : i ∈ f.cells
      · rw [covering_cons_of_mem h, List.getLast?_cons, put_mem h]
        cases (covering i fs).getLast? <;> rfl
      · rw [covering_cons_of_not_mem h, put_not_mem h]

/-- Unwinding looks at a cell only if no scope covers it. -/
theorem unwind_congr {fs : List (Scope ι α)} {s s' : ι → α} {i : ι}
    (h : i ∉ covered fs → s' i = s i) : unwind fs s' i = unwind fs s i := by
  by_cases hi : i ∈ covered fs
  · rw [unwind_apply, unwind_apply, List.getLast?_eq_some_getLast (covering_ne_nil hi)]
    rfl
  · rw [unwind_apply, unwind_apply, h hi]

/-- Where no scope covers a cell unwinding leaves it alone. -/
theorem unwind_uncovered {fs : List (Scope ι α)} {i : ι} (h : i ∉ covered fs) (s : ι → α) :
    unwind fs s i = s i := by
  have hnil : covering i fs = [] :=
    List.filter_eq_nil_iff.mpr (fun f hf hi => h ⟨f, hf, of_decide_eq_true hi⟩)
  rw [unwind_apply, hnil]
  rfl

/-- An inner scope does not matter where an outer one covers the cell. -/
theorem unwind_abandon {fs fs' : List (Scope ι α)} {f : Scope ι α} {i : ι}
    (h : i ∉ f.cells \ covered fs') (s : ι → α) :
    unwind (fs ++ ⟨∅, f.saved⟩ :: fs') s i = unwind (fs ++ f :: fs') s i := by
  rw [unwind_apply, unwind_apply, covering_append, covering_append,
    covering_cons_of_not_mem (Set.notMem_empty i)]
  by_cases hi : i ∈ f.cells
  · have hne : covering i fs' ≠ [] := covering_ne_nil (by simpa [hi] using h)
    rw [covering_cons_of_mem hi, List.getLast?_append_of_ne_nil _ hne,
      List.getLast?_append_of_ne_nil _ (List.cons_ne_nil _ _), List.getLast?_cons,
      List.getLast?_eq_some_getLast hne]
    rfl
  · rw [covering_cons_of_not_mem hi]

/-- One step of a program with scopes, and the cells that escape in it. -/
inductive Escapes :
    List (Scope ι α) × (ι → α) → Set ι → List (Scope ι α) × (ι → α) → Prop
  /-- enter a scope and change cells inside its set -/
  | enter (fs : List (Scope ι α)) (s : ι → α) (S : Set ι) (s' : ι → α)
      (frame : ∀ i, i ∉ S → s' i = s i) : Escapes (fs, s) ∅ (⟨S, s⟩ :: fs, s')
  /-- change cells without entering a scope -/
  | write (fs : List (Scope ι α)) (s : ι → α) (S : Set ι) (s' : ι → α)
      (frame : ∀ i, i ∉ S → s' i = s i) : Escapes (fs, s) (S \ covered fs) (fs, s')
  /-- abandon a scope, which then covers nothing -/
  | abandon (fs : List (Scope ι α)) (f : Scope ι α) (fs' : List (Scope ι α)) (s : ι → α) :
      Escapes (fs ++ f :: fs', s) (f.cells \ covered fs') (fs ++ ⟨∅, f.saved⟩ :: fs', s)
  /-- leave the innermost scope, which puts its cells back except those of `W` -/
  | leave (f : Scope ι α) (fs : List (Scope ι α)) (s : ι → α) (W : Set ι) (s' : ι → α)
      (frame : ∀ i, i ∉ W → s' i = put f.cells f.saved s i) :
      Escapes (f :: fs, s) (W \ covered fs) (fs, s')

/-- **A step keeps what unwinding gives**, except where it lets changes escape. -/
theorem unwind_escapes {c c' : List (Scope ι α) × (ι → α)} {E : Set ι} (h : Escapes c E c')
    {i : ι} (hi : i ∉ E) : unwind c'.1 c'.2 i = unwind c.1 c.2 i := by
  cases h with
  | enter fs s S s' frame =>
      show unwind fs (put S s s') i = unwind fs s i
      refine unwind_congr ?_
      intro _
      by_cases hS : i ∈ S
      · exact put_mem hS s s'
      · rw [put_not_mem hS, frame i hS]
  | write fs s S s' frame =>
      refine unwind_congr ?_
      intro hcov
      exact frame i (fun hS => hi ⟨hS, hcov⟩)
  | abandon fs f fs' s => exact unwind_abandon hi s
  | leave f fs s W s' frame =>
      show unwind fs s' i = unwind fs (put f.cells f.saved s) i
      refine unwind_congr ?_
      intro hcov
      exact frame i (fun hW => hi ⟨hW, hcov⟩)

/-- A run, with all the cells that escape in it. -/
inductive EscapeRun (c : List (Scope ι α) × (ι → α)) :
    Set ι → List (Scope ι α) × (ι → α) → Prop
  | refl : EscapeRun c ∅ c
  | tail {E E' : Set ι} {c' c'' : List (Scope ι α) × (ι → α)} (run : EscapeRun c E c')
      (step : Escapes c' E' c'') : EscapeRun c (E ∪ E') c''

/-- **A run keeps what unwinding gives**, except where changes escaped. -/
theorem unwind_steps {c c' : List (Scope ι α) × (ι → α)} {E : Set ι} (h : EscapeRun c E c')
    {i : ι} (hi : i ∉ E) : unwind c'.1 c'.2 i = unwind c.1 c.2 i := by
  induction h with
  | refl => rfl
  | tail _ hstep ih =>
      rw [Set.mem_union, not_or] at hi
      rw [unwind_escapes hstep hi.2, ih hi.1]

/-- At any time the cells that no open scope covers and that did not escape are as
    they were. -/
theorem escapeRun_uncovered {fs : List (Scope ι α)} {s s' : ι → α} {E : Set ι}
    (h : EscapeRun ([], s) E (fs, s')) {i : ι} (hi : i ∉ E) (hcov : i ∉ covered fs) :
    s' i = s i :=
  (unwind_uncovered hcov s').symm.trans (unwind_steps h hi)

/-- With all its scopes left, a run keeps the cells that did not escape. -/
theorem escapeRun_keeps {s s' : ι → α} {E : Set ι} (h : EscapeRun ([], s) E ([], s')) {i : ι}
    (hi : i ∉ E) : s' i = s i :=
  unwind_steps h hi

end Overlay
