import VmUtils.Lib.TextStream

/-! # Loops over the lines of a stream

    `forLines` is the loop `for (; in; in.ignore(max, '\n')) body`.  A body
    carries the proof that a round uses up budget, so the loop is total on
    every text and in both exception modes.

    `forLines_text` is the simulation rule: when each round on a rendered line
    follows one step on the record the line was rendered from, and leaves the
    cursor somewhere in that line, the whole loop follows the scan of the
    records, up to the round that meets the end of the text.  A loop whose rounds
    compute their results from those of another loop is that loop with its result
    computed on (`forLines_bindStop`). -/

namespace TextStream

/-- How a round of a loop ends. -/
inductive Round (S R : Type) where
  /-- The next round starts from `s`. -/
  | again (s : S)
  /-- The loop is left with `r`. -/
  | stop (r : R)

/-- Change the state the next round starts from. -/
def Round.mapAgain {S S' R : Type} (f : S → S') : Round S R → Round S' R
  | .again s => .again (f s)
  | .stop r => .stop r

/-- Compute the result of a round that leaves the loop from another one. -/
def Round.bindStop {ε S R R' : Type} (g : R → Except ε R') : Round S R → Except ε (Round S R')
  | .again s => .ok (.again s)
  | .stop r => (g r).map .stop

/-- Go on with `k` where `x` did not leave the loop. -/
def followedBy {ε S R : Type} (x : Except ε (Round S R)) (k : S → Except ε (Round S R)) :
    Except ε (Round S R) :=
  match x with
  | .error e => .error e
  | .ok (.stop r) => .ok (.stop r)
  | .ok (.again s) => k s

/-- The body of a loop over lines with local state `S` and results `R`. -/
structure LineBody (ε S R : Type) where
  run : IStream ε → S → Except ε (Round (IStream ε × S) R)
  budget_lt : ∀ {s s' : IStream ε} {l l' : S}, s.failbit = false →
    run s l = .ok (.again (s', l')) → s'.budget < s.budget

variable {α ε S R : Type}

/-- `for (; in; in.ignore(max, '\n')) body`, where `in` is tested by `!fail()`. -/
def forLines (b : LineBody ε S R) (s : IStream ε) (l : S) : Except ε (Round S R) :=
  if _hf : s.failbit = true then .ok (.again l)
  else
    match _hr : b.run s l with
    | .error e => .error e
    | .ok (.stop r) => .ok (.stop r)
    | .ok (.again (s', l')) =>
        match _hi : s'.ignoreTo '\n' with
        | .error e => .error e
        | .ok s'' => forLines b s'' l'
termination_by s.budget
decreasing_by
  exact Nat.lt_of_le_of_lt (ignoreTo_budget _hi) (b.budget_lt (Bool.eq_false_iff.mpr _hf) _hr)

theorem forLines_of_failbit (b : LineBody ε S R) {s : IStream ε} (l : S)
    (h : s.failbit = true) : forLines b s l = .ok (.again l) := by
  rw [forLines, dif_pos h]

theorem forLines_of_error (b : LineBody ε S R) {s : IStream ε} {l : S} {e : ε}
    (h : s.failbit = false) (hr : b.run s l = .error e) : forLines b s l = .error e := by
  rw [forLines, dif_neg (Bool.eq_false_iff.mp h)]
  split
  · rename_i e' hr'
    rw [Except.error.inj (hr'.symm.trans hr)]
  · rename_i r hr'
    exact nomatch hr.symm.trans hr'
  · rename_i s' l' hr'
    exact nomatch hr.symm.trans hr'

theorem forLines_of_stop (b : LineBody ε S R) {s : IStream ε} {l : S} {r : R}
    (h : s.failbit = false) (hr : b.run s l = .ok (.stop r)) :
    forLines b s l = .ok (.stop r) := by
  rw [forLines, dif_neg (Bool.eq_false_iff.mp h)]
  split
  · rename_i e hr'
    exact nomatch hr.symm.trans hr'
  · rename_i r' hr'
    rw [Round.stop.inj (Except.ok.inj (hr'.symm.trans hr))]
  · rename_i s' l' hr'
    exact nomatch Except.ok.inj (hr.symm.trans hr')

theorem forLines_of_again (b : LineBody ε S R) {s s' s'' : IStream ε} {l l' : S}
    (h : s.failbit = false) (hr : b.run s l = .ok (.again (s', l')))
    (hi : s'.ignoreTo '\n' = .ok s'') : forLines b s l = forLines b s'' l' := by
  rw [forLines, dif_neg (Bool.eq_false_iff.mp h)]
  split
  · rename_i e hr'
    exact nomatch hr.symm.trans hr'
  · rename_i r hr'
    exact nomatch Except.ok.inj (hr.symm.trans hr')
  · rename_i s₁ l₁ hr'
    obtain ⟨rfl, rfl⟩ := Prod.mk.inj (Round.again.inj (Except.ok.inj (hr'.symm.trans hr)))
    split
    · rename_i e hi'
      exact nomatch hi.symm.trans hi'
    · rename_i s₂ hi'
      rw [Except.ok.inj (hi'.symm.trans hi)]

theorem forLines_of_ignoreTo_error (b : LineBody ε S R) {s s' : IStream ε} {l l' : S} {e : ε}
    (h : s.failbit = false) (hr : b.run s l = .ok (.again (s', l')))
    (hi : s'.ignoreTo '\n' = .error e) : forLines b s l = .error e := by
  rw [forLines, dif_neg (Bool.eq_false_iff.mp h)]
  split
  · rename_i e' hr'
    exact nomatch hr.symm.trans hr'
  · rename_i r hr'
    exact nomatch Except.ok.inj (hr.symm.trans hr')
  · rename_i s₁ l₁ hr'
    obtain ⟨rfl, rfl⟩ := Prod.mk.inj (Round.again.inj (Except.ok.inj (hr'.symm.trans hr)))
    split
    · rename_i e' hi'
      rw [Except.error.inj (hi'.symm.trans hi)]
    · rename_i s₂ hi'
      exact nomatch hi.symm.trans hi'

/-- **Results**: if each round of one loop computes its result from that of a
    round of another loop, so does the whole loop. -/
theorem forLines_bindStop {R' : Type} {b : LineBody ε S R} {c : LineBody ε S R'}
    {g : R → Except ε R'} (h : ∀ s l, c.run s l = b.run s l >>= Round.bindStop g)
    (s : IStream ε) (l : S) : forLines c s l = forLines b s l >>= Round.bindStop g := by
  induction hn : s.budget using Nat.strong_induction_on generalizing s l with
  | _ n ih =>
      cases hf : s.failbit with
      | true =>
          rw [forLines_of_failbit b l hf, forLines_of_failbit c l hf]
          rfl
      | false =>
          have hround := h s l
          rcases hr : b.run s l with e | ⟨s', l'⟩ | r
          · rw [hr] at hround
            rw [forLines_of_error b hf hr, forLines_of_error c hf hround]
            rfl
          · rw [hr] at hround
            have hlt := b.budget_lt hf hr
            rcases hi : s'.ignoreTo '\n' with e | s''
            · rw [forLines_of_ignoreTo_error b hf hr hi, forLines_of_ignoreTo_error c hf hround hi]
              rfl
            · rw [forLines_of_again b hf hr hi, forLines_of_again c hf hround hi]
              rw [hn] at hlt
              exact ih _ (Nat.lt_of_le_of_lt (ignoreTo_budget hi) hlt) s'' l' rfl
          · have hresult : c.run s l = (g r).map Round.stop := by rw [hround, hr]; rfl
            rw [forLines_of_stop b hf hr]
            show _ = (g r).map Round.stop
            rcases hg : g r with e | r'
            · rw [hg] at hresult
              exact forLines_of_error c hf hresult
            · rw [hg] at hresult
              exact forLines_of_stop c hf hresult

/-! ## Scans of records and their simulation -/

/-- The text of a list of records, one per line. -/
def renderLines (render : α → List Char) : List α → List Char
  | [] => []
  | a :: as => render a ++ '\n' :: renderLines render as

/-- A scan over records with an early exit. -/
def scanLines (step : S → α → Except ε (Round S R)) : List α → S → Except ε (Round S R)
  | [], l => .ok (.again l)
  | a :: as, l => followedBy (step l a) (fun l' => scanLines step as l')

/-- A round on a stream follows a step on a record when both end the same way
    and, if the loop goes on, the cursor is left in front of `tail` with at most
    the remainder of the line before it. -/
inductive Follows (t : Option ε) (tail : List Char) :
    Except ε (Round (IStream ε × S) R) → Except ε (Round S R) → Prop where
  | error (e : ε) : Follows t tail (.error e) (.error e)
  | stop (r : R) : Follows t tail (.ok (.stop r)) (.ok (.stop r))
  | again (l : S) (left : List Char) : '\n' ∉ left →
      Follows t tail (.ok (.again (IStream.over t (left ++ '\n' :: tail), l))) (.ok (.again l))

/-- **Simulation.**  The loop on the text of `as` is the scan of `as`, followed
    by the loop at the end of the text. -/
theorem forLines_text (b : LineBody ε S R) (t : Option ε) (render : α → List Char)
    (step : S → α → Except ε (Round S R))
    (hsim : ∀ l a tail, Follows t tail
      (b.run (IStream.over t (render a ++ '\n' :: tail)) l) (step l a)) :
    ∀ (as : List α) (l : S),
      forLines b (IStream.over t (renderLines render as)) l
        = followedBy (scanLines step as l) (fun l' => forLines b (IStream.over t []) l') := by
  intro as
  induction as with
  | nil => intro l; rfl
  | cons a as ih =>
      intro l
      -- the text of the remaining records is the tail of this round
      have hround := hsim l a (renderLines render as)
      rw [renderLines, scanLines]
      generalize hr : b.run (IStream.over t (render a ++ '\n' :: renderLines render as)) l = res
        at hround
      generalize step l a = res' at hround
      cases hround with
      | error e => exact forLines_of_error b (over_failbit t _) hr
      | stop r => exact forLines_of_stop b (over_failbit t _) hr
      | again l' left hleft =>
          rw [forLines_of_again b (over_failbit t _) hr (ignoreTo_eq t hleft)]
          exact ih l'

/-- A loop ends with what its round at the end of the text does. -/
theorem forLines_eof (b : LineBody ε S R) (l : S) (res : Except ε (Round S R))
    (h : b.run (IStream.over none []) l
      = res.map (Round.mapAgain (fun l' => (IStream.failed, l')))) :
    forLines b (IStream.over none []) l = res := by
  match res, h with
  | .error e, h => exact forLines_of_error b rfl h
  | .ok (.stop r), h => exact forLines_of_stop b rfl h
  | .ok (.again l'), h =>
      rw [forLines_of_again b rfl h (ignoreTo_failed '\n')]
      exact forLines_of_failbit b l' rfl

end TextStream
