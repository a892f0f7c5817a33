import Mathlib

/-! # Computations on a store

    A computation on a state may throw, and a throw keeps what was done before
    it.  `Yields` says how it ends whatever the state is.  On a store of cells
    `WritesOnly` says which cells it may change, `Leaves` what a cell holds
    behind it and `Keeps` that a cell that holds a value still does.  Each has a
    rule for a sequence. -/

namespace StoreEffects

variable {ε σ ι β α γ : Type}

/-- How a sequence runs. -/
theorem bind_run (m : ExceptT ε (StateM σ) α) (f : α → ExceptT ε (StateM σ) γ) (s : σ) :
    (m >>= f).run s = match m.run s with
      | (.ok x, s') => (f x).run s'
      | (.error e, s') => (.error e, s') := by
  show ExceptT.bindCont f (m.run s).1 (m.run s).2 = _
  rcases m.run s with ⟨_ | x, s'⟩
  · rfl
  · rfl

/-! ## Outcomes -/

/-- The computation ends with `x` from every state. -/
def Yields (m : ExceptT ε (StateM σ) α) (x : Except ε α) : Prop := ∀ s, (m.run s).1 = x

section

variable {m : ExceptT ε (StateM σ) α} {f : α → ExceptT ε (StateM σ) γ}

theorem yields_pure (x : α) : Yields (pure x : ExceptT ε (StateM σ) α) (.ok x) := fun _ => rfl

theorem yields_throw (e : ε) : Yields (throw e : ExceptT ε (StateM σ) α) (.error e) :=
  fun _ => rfl

theorem yields_lift (x : Except ε α) : Yields (liftM x : ExceptT ε (StateM σ) α) x :=
  fun _ => rfl

/-- A sequence ends as the sequence of the outcomes. -/
theorem Yields.bind {x : Except ε α} {g : α → Except ε γ} (hm : Yields m x)
    (hf : ∀ y, x = .ok y → Yields (f y) (g y)) : Yields (m >>= f) (x >>= g) := by
  intro s
  have hs := hm s
  rw [bind_run]
  rcases hrun : m.run s with ⟨_ | y, s'⟩
  · rw [hrun] at hs
    rw [← hs]
    rfl
  · rw [hrun] at hs
    rw [← hs]
    exact hf y hs.symm s'

end

/-! ## Cells -/

/-- No cell outside `P` changes. -/
def WritesOnly (P : ι → Prop) (m : ExceptT ε (StateM (ι → β)) α) : Prop :=
  ∀ s i, ¬ P i → (m.run s).2 i = s i

/-- A cell that holds the value still does so behind the computation. -/
def Keeps (i : ι) (b : β) (m : ExceptT ε (StateM (ι → β)) α) : Prop :=
  ∀ s, s i = b → (m.run s).2 i = b

/-- Behind the computation the cell holds the value. -/
def Leaves (i : ι) (b : β) (m : ExceptT ε (StateM (ι → β)) α) : Prop :=
  ∀ s, (m.run s).2 i = b

section

variable {P Q : ι → Prop} {i : ι} {b : β} {m : ExceptT ε (StateM (ι → β)) α}
  {f : α → ExceptT ε (StateM (ι → β)) γ}

theorem writesOnly_pure (x : α) : WritesOnly P (pure x : ExceptT ε (StateM (ι → β)) α) :=
  fun _ _ _ => rfl

theorem writesOnly_throw (e : ε) : WritesOnly P (throw e : ExceptT ε (StateM (ι → β)) α) :=
  fun _ _ _ => rfl

theorem writesOnly_lift (x : Except ε α) :
    WritesOnly P (liftM x : ExceptT ε (StateM (ι → β)) α) := fun _ _ _ => rfl

theorem WritesOnly.mono (hm : WritesOnly P m) (h : ∀ i, P i → Q i) : WritesOnly Q m :=
  fun s i hi => hm s i (fun hp => hi (h i hp))

/-- The second part of a sequence matters only for values the first can return. -/
theorem WritesOnly.bind (hm : WritesOnly P m)
    (hf : ∀ y s, (m.run s).1 = .ok y → WritesOnly P (f y)) : WritesOnly P (m >>= f) := by
  intro s i hi
  have hs := hm s i hi
  rw [bind_run]
  rcases hrun : m.run s with ⟨_ | y, s'⟩
  · rw [hrun] at hs
    exact hs
  · rw [hrun] at hs
    have hy : (m.run s).1 = .ok y := by rw [hrun]
    exact (hf y s hy s' i hi).trans hs

/-- A first part that returns has one second part. -/
theorem WritesOnly.after {x : α} (hm : WritesOnly P m) (hx : Yields m (.ok x))
    (hf : WritesOnly P (f x)) : WritesOnly P (m >>= f) := by
  refine hm.bind (fun y s hy => ?_)
  obtain rfl := Except.ok.inj ((hx s).symm.trans hy)
  exact hf

/-- A first part that throws has none. -/
theorem WritesOnly.of_throws {e : ε} (hm : WritesOnly P m) (he : Yields m (.error e)) :
    WritesOnly P (m >>= f) :=
  hm.bind (fun _ s hy => by cases (he s).symm.trans hy)

theorem WritesOnly.keeps (hm : WritesOnly P m) (hi : ¬ P i) (b : β) : Keeps i b m :=
  fun s hs => (hm s i hi).trans hs

theorem keeps_pure (x : α) : Keeps i b (pure x : ExceptT ε (StateM (ι → β)) α) :=
  fun _ hs => hs

theorem Leaves.keeps (hm : Leaves i b m) : Keeps i b m := fun s _ => hm s

theorem Keeps.bind (hm : Keeps i b m) (hf : ∀ y, Keeps i b (f y)) : Keeps i b (m >>= f) := by
  intro s hs
  have hkept := hm s hs
  rw [bind_run]
  rcases hrun : m.run s with ⟨_ | y, s'⟩
  · rw [hrun] at hkept
    exact hkept
  · rw [hrun] at hkept
    exact hf y s' hkept

/-- What the first part leaves, the second keeps. -/
theorem Leaves.bind (hm : Leaves i b m) (hf : ∀ y, Keeps i b (f y)) : Leaves i b (m >>= f) := by
  intro s
  have hleft := hm s
  rw [bind_run]
  rcases hrun : m.run s with ⟨_ | y, s'⟩
  · rw [hrun] at hleft
    exact hleft
  · rw [hrun] at hleft
    exact hf y s' hleft

/-- A first part that returns gets to the second. -/
theorem Leaves.after {x : α} (hm : Yields m (.ok x)) (hf : Leaves i b (f x)) :
    Leaves i b (m >>= f) := by
  intro s
  have hs := hm s
  rw [bind_run]
  rcases hrun : m.run s with ⟨_ | y, s'⟩
  · rw [hrun] at hs
    cases hs
  · rw [hrun] at hs
    obtain rfl := Except.ok.inj hs
    exact hf s'

/-- A value left behind is a change of a cell that held another one. -/
theorem Leaves.not_writesOnly (hm : Leaves i b m) (c : β) (hc : c ≠ b) (hi : ¬ P i) :
    ¬ WritesOnly P m := by
  intro honly
  have hkept := honly (fun _ => c) i hi
  rw [hm] at hkept
  exact hc hkept.symm

end

end StoreEffects
