import Mathlib

/-! # Iterator loops

    `for (; !(it == end); ++it)`, where `++it` may fail.  If the neighbours of a
    list are steps of the iterator and only its last element is the end, the loop
    visits exactly that list (`walk_segment`). -/

namespace Walk

variable {β ε : Type}

/-- The values of the iterator, up to the one that ends the loop.  Out of fuel
    is `none`. -/
def walk (next : β → Except ε β) (atEnd : β → Bool) : Nat → β → Option (Except ε (List β))
  | 0, _ => none
  | fuel + 1, x =>
      if atEnd x then some (.ok [x])
      else
        match next x with
        | .error e => some (.error e)
        | .ok y => (walk next atEnd fuel y).map (fun r => r.map (x :: ·))

variable {next : β → Except ε β} {atEnd : β → Bool}

theorem walk_atEnd {x : β} (h : atEnd x = true) (fuel : Nat) :
    walk next atEnd (fuel + 1) x = some (.ok [x]) := by
  rw [walk, if_pos h]

/-- One round that goes on. -/
theorem walk_next {x y : β} (h : atEnd x = false) (hnext : next x = .ok y) (fuel : Nat) :
    walk next atEnd (fuel + 1) x = (walk next atEnd fuel y).map (fun r => r.map (x :: ·)) := by
  rw [walk, if_neg (Bool.eq_false_iff.mp h), hnext]

/-- Enough fuel is enough: two loops that end give the same values. -/
theorem walk_unique {n n' : Nat} {x : β} {r r' : Except ε (List β)}
    (h : walk next atEnd n x = some r) (h' : walk next atEnd n' x = some r') : r = r' := by
  induction n generalizing n' x r r' with
  | zero => exact nomatch h
  | succ n ih =>
      cases n' with
      | zero => exact nomatch h'
      | succ n' =>
          by_cases hend : atEnd x = true
          · rw [walk_atEnd hend] at h h'
            rw [← Option.some.inj h, ← Option.some.inj h']
          · rw [walk, if_neg hend] at h h'
            cases hnext : next x with
            | error e =>
                rw [hnext] at h h'
                rw [← Option.some.inj h, ← Option.some.inj h']
            | ok y =>
                rw [hnext] at h h'
                obtain ⟨s, hs, rfl⟩ := Option.map_eq_some_iff.mp h
                obtain ⟨s', hs', rfl⟩ := Option.map_eq_some_iff.mp h'
                rw [ih hs hs']

/-- **The loop visits the list** whose neighbours are its steps and of which only
    the last element is the end. -/
theorem walk_segment {z : β} (hz : atEnd z = true) (mid : List β) :
    ∀ x, (mid ++ [z]).head? = some x → (∀ p ∈ mid, atEnd p = false) →
      (∀ p p', [p, p'] <:+: mid ++ [z] → next p = .ok p') →
      walk next atEnd (mid.length + 1) x = some (.ok (mid ++ [z])) := by
  induction mid with
  | nil =>
      intro x hx _ _
      obtain rfl : z = x := Option.some.inj hx
      exact walk_atEnd hz 0
  | cons y mid ih =>
      intro x hx hne hnext
      obtain rfl : y = x := Option.some.inj hx
      obtain ⟨y', hy'⟩ : ∃ y', (mid ++ [z]).head? = some y' := by
        cases mid with
        | nil => exact ⟨z, rfl⟩
        | cons y' mid => exact ⟨y', rfl⟩
      obtain ⟨tail, htail⟩ := List.head?_eq_some_iff.mp hy'
      have hstep : next y = .ok y' := by
        refine hnext y y' ⟨[], tail, ?_⟩
        rw [List.cons_append, htail]
        rfl
      have hrest := ih y' hy' (fun p hp => hne p (List.mem_cons_of_mem _ hp))
        (fun p p' hp => hnext p p' (hp.trans (List.suffix_cons y _).isInfix))
      show walk next atEnd (mid.length + 1 + 1) y = _
      rw [walk_next (hne y (List.mem_cons_self ..)) hstep, hrest]
      rfl

/-! ## Trails -/

variable {κ : Type} {ask : κ → Except ε β} {key : β → κ}

/-- The values that `ask` answers, first at the key `x` and then at the key of the
    value in front. -/
def Trail (ask : κ → Except ε β) (key : β → κ) : κ → List β → Prop
  | _, [] => True
  | x, b :: bs => ask x = .ok b ∧ Trail ask key (key b) bs

/-- **A loop that asks for its next value** visits a trail. -/
theorem walk_trail {atEnd : β → Bool} {fuel : Nat} {x : β} {bs : List β}
    (h : walk (fun b => ask (key b)) atEnd fuel x = some (.ok bs)) :
    ∃ rest, bs = x :: rest ∧ Trail ask key (key x) rest := by
  induction fuel generalizing x bs with
  | zero => cases h
  | succ fuel ih =>
      rw [walk] at h
      split at h
      · exact ⟨[], (Except.ok.inj (Option.some.inj h)).symm, trivial⟩
      · split at h
        · cases h
        · next y hy =>
            obtain ⟨r, hr, hmap⟩ := Option.map_eq_some_iff.mp h
            cases r with
            | error e => cases hmap
            | ok ys =>
                obtain rfl := Except.ok.inj hmap
                obtain ⟨rest, rfl, hrest⟩ := ih hr
                exact ⟨y :: rest, rfl, hy, hrest⟩

end Walk
