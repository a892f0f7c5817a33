import VmUtils.Lib.LineLoop

/-! # Streams with and without exceptions

    The same program run on a stream that raises `e` when it fails, and on one that
    only sets its flags.  The two agree until the first one raises (`Hushes`): the
    operations of a stream do, `>>=` keeps it (`Hushes.bind`), and so does a loop
    over lines whose body does (`forLines_hushes`). -/

namespace TextStream

variable {ε α β γ δ S R : Type} {e : ε} {n w : Nat}

/-- The first computation raises `e`, or both end in the same way, with related
    values. -/
inductive Hushes (e : ε) (Q : α → β → Prop) : Except ε α → Except ε β → Prop
  | raises (x : Except ε β) : Hushes e Q (.error e) x
  | error (e' : ε) : Hushes e Q (.error e') (.error e')
  | ok {a : α} {b : β} (h : Q a b) : Hushes e Q (.ok a) (.ok b)

/-- **Hushing goes through a sequence.** -/
theorem Hushes.bind {Q : α → β → Prop} {Q' : γ → δ → Prop} {x : Except ε α} {x' : Except ε β}
    {f : α → Except ε γ} {f' : β → Except ε δ} (h : Hushes e Q x x')
    (hf : ∀ a b, Q a b → Hushes e Q' (f a) (f' b)) : Hushes e Q' (x >>= f) (x' >>= f') := by
  cases h with
  | raises x' => exact Hushes.raises _
  | error e' => exact Hushes.error e'
  | ok h => exact hf _ _ h

/-- A computation that touches no stream. -/
theorem Hushes.refl (x : Except ε α) : Hushes e Eq x x := by
  cases x with
  | error e' => exact Hushes.error e'
  | ok a => exact Hushes.ok rfl

/-- Two computations with equal values. -/
theorem Hushes.eq_or {x x' : Except ε α} (h : Hushes e Eq x x') : x = .error e ∨ x' = x := by
  cases h with
  | raises x' => exact Or.inl rfl
  | error e' => exact Or.inr rfl
  | ok h => exact Or.inr (congrArg Except.ok h.symm)

/-! ## The operations -/

/-- The same stream, on one side raising `e`, on the other side silent. -/
def Hushed (e : ε) (s s' : IStream ε) : Prop :=
  s.throws = some e ∧ s' = { s with throws := none }

/-- Streams beside equal values. -/
def HushedWith (e : ε) (p p' : IStream ε × α) : Prop := Hushed e p.1 p'.1 ∧ p.2 = p'.2

variable {s s' : IStream ε}

theorem hushed_over (e : ε) (text : List Char) :
    Hushed e (IStream.over (some e) text) (IStream.over none text) := ⟨rfl, rfl⟩

/-- A failure raises. -/
theorem setFail_hushes (h : s.throws = some e) {Q : IStream ε → β → Prop} (x : Except ε β) :
    Hushes e Q s.setFail x := by
  have hraise : s.setFail = .error e := by
    rw [IStream.setFail, h]
  rw [hraise]
  exact Hushes.raises x

/-- So does a failure whose stream is handed on with a value. -/
theorem setFail_return_hushes (h : s.throws = some e) {Q : IStream ε × α → β → Prop} (v : α)
    (x : Except ε β) :
    Hushes e Q (do let s ← s.setFail; return (s, v) : Except ε (IStream ε × α)) x := by
  have hraise : s.setFail = .error e := by
    rw [IStream.setFail, h]
  rw [hraise]
  exact Hushes.raises x

theorem ignore_hushes (h : Hushed e s s') : Hushes e (Hushed e) s.ignore s'.ignore := by
  obtain ⟨ht, rfl⟩ := h
  rw [IStream.ignore, IStream.ignore]
  by_cases hg : (!s.good) = true
  · rw [if_pos hg]
    exact setFail_hushes ht _
  · rw [if_neg hg]
    refine Eq.subst (motive := fun x => Hushes e (Hushed e) _ x) (if_neg hg).symm ?_
    cases s.rest with
    | nil => exact Hushes.ok ⟨ht, rfl⟩
    | cons c cs => exact Hushes.ok ⟨ht, rfl⟩

theorem ignoreTo_hushes (h : Hushed e s s') (delim : Char) :
    Hushes e (Hushed e) (s.ignoreTo delim) (s'.ignoreTo delim) := by
  obtain ⟨ht, rfl⟩ := h
  rw [IStream.ignoreTo, IStream.ignoreTo]
  by_cases hg : (!s.good) = true
  · rw [if_pos hg]
    exact setFail_hushes ht _
  · rw [if_neg hg]
    refine Eq.subst (motive := fun x => Hushes e (Hushed e) _ x) (if_neg hg).symm ?_
    dsimp only
    cases s.rest.dropWhile (· != delim) with
    | nil => exact Hushes.ok ⟨ht, rfl⟩
    | cons c cs => exact Hushes.ok ⟨ht, rfl⟩

theorem extractHex_hushes (h : Hushed e s s') (target : BitVec w) :
    Hushes e (HushedWith e) (s.extractHex target) (s'.extractHex target) := by
  obtain ⟨ht, rfl⟩ := h
  rw [IStream.extractHex, IStream.extractHex]
  by_cases hg : (!s.good) = true
  · rw [if_pos hg]
    exact setFail_return_hushes ht _ _
  · rw [if_neg hg]
    refine Eq.subst (motive := fun x => Hushes e (HushedWith e) _ x) (if_neg hg).symm ?_
    dsimp only
    cases s.rest.dropWhile isSpace with
    | nil => exact setFail_return_hushes (s := { s with rest := [], eofbit := true }) ht _ _
    | cons c cs =>
        dsimp only
        rcases hexField w (c :: cs) with ⟨v, ok, after⟩
        cases ok with
        | false =>
            exact setFail_return_hushes
              (s := { s with rest := after, eofbit := after.isEmpty }) ht _ _
        | true => exact Hushes.ok ⟨⟨ht, rfl⟩, rfl⟩

theorem read_hushes (h : Hushed e s s') (buf : Fin n → Char) :
    Hushes e (HushedWith e) (s.read buf) (s'.read buf) := by
  obtain ⟨ht, rfl⟩ := h
  rw [IStream.read, IStream.read]
  by_cases hg : (!s.good) = true
  · rw [if_pos hg]
    exact setFail_return_hushes ht _ _
  · rw [if_neg hg]
    refine Eq.subst (motive := fun x => Hushes e (HushedWith e) _ x) (if_neg hg).symm ?_
    dsimp only
    by_cases hlen : s.rest.length < n
    · rw [if_pos hlen]
      exact setFail_return_hushes
        (s := { s with rest := s.rest.drop n, eofbit := true }) ht _ _
    · rw [if_neg hlen, if_neg hlen]
      exact Hushes.ok ⟨⟨ht, rfl⟩, rfl⟩

/-! ## The loop -/

/-- Rounds that end in the same way. -/
inductive RoundHushed (e : ε) : Round (IStream ε × S) R → Round (IStream ε × S) R → Prop
  | again {s s' : IStream ε} (l : S) (h : Hushed e s s') :
      RoundHushed e (.again (s, l)) (.again (s', l))
  | stop (r : R) : RoundHushed e (.stop r) (.stop r)

/-- **Hushing goes through the loop**, by induction on the budget of the stream. -/
theorem forLines_hushes (b : LineBody ε S R)
    (hbody : ∀ s s' l, Hushed e s s' → Hushes e (RoundHushed e) (b.run s l) (b.run s' l)) :
    ∀ s s' l, Hushed e s s' → Hushes e Eq (forLines b s l) (forLines b s' l) := by
  intro s
  induction hn : s.budget using Nat.strong_induction_on generalizing s with
  | _ n ih =>
      intro s' l h
      cases hf : s.failbit with
      | true =>
          have hf' : s'.failbit = true := by
            rw [h.2]
            exact hf
          rw [forLines_of_failbit b l hf, forLines_of_failbit b l hf']
          exact Hushes.ok rfl
      | false =>
          have hf' : s'.failbit = false := by
            rw [h.2]
            exact hf
          have hround := hbody s s' l h
          generalize hr : b.run s l = x at hround
          generalize hr' : b.run s' l = x' at hround
          cases hround with
          | raises x' =>
              rw [forLines_of_error b hf hr]
              exact Hushes.raises _
          | error e' =>
              rw [forLines_of_error b hf hr, forLines_of_error b hf' hr']
              exact Hushes.error e'
          | ok hround =>
              cases hround with
              | stop r =>
                  rw [forLines_of_stop b hf hr, forLines_of_stop b hf' hr']
                  exact Hushes.ok rfl
              | @again s₁ s₁' l' h₁ =>
                  have hnext := ignoreTo_hushes h₁ '\n'
                  generalize hi : s₁.ignoreTo '\n' = y at hnext
                  generalize hi' : s₁'.ignoreTo '\n' = y' at hnext
                  cases hnext with
                  | raises y' =>
                      rw [forLines_of_ignoreTo_error b hf hr hi]
                      exact Hushes.raises _
                  | error e' =>
                      rw [forLines_of_ignoreTo_error b hf hr hi,
                        forLines_of_ignoreTo_error b hf' hr' hi']
                      exact Hushes.error e'
                  | @ok s₂ s₂' h₂ =>
                      rw [forLines_of_again b hf hr hi, forLines_of_again b hf' hr' hi']
                      have hlt := Nat.lt_of_le_of_lt (ignoreTo_budget hi) (b.budget_lt hf hr)
                      exact ih s₂.budget (hn ▸ hlt) s₂ rfl s₂' l' h₂

end TextStream
