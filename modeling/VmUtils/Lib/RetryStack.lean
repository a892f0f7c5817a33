import Mathlib

/-! # Working off a stack of fallible operations

    A stack is worked off from its top: an item whose operation succeeds is
    removed, the first failure ends the work and leaves its item and those below
    (`drain`).  What a run does is said by its calls (`Drained`): one success for
    every item removed, from the top down, and at most one more call, for the
    item then on top.  The other way to work off a list is to try every item once,
    whatever becomes of the others (`sweep`). -/

namespace RetryStack

variable {α ε σ : Type}

/-- An operation on an item that acts on a state and may fail. -/
abbrev Attempt (α ε σ : Type) := α → σ → Option ε × σ

/-- One operation that was carried out, and how it ended. -/
structure Call (α ε : Type) where
  item : α
  failure : Option ε
  deriving DecidableEq, Repr

/-- Works off the stack `xs`, its top first.  Returns the failure, the items that
    are left and the state. -/
def drain (f : Attempt α ε σ) : List α → σ → Option ε × List α × σ
  | [], s => (none, [], s)
  | x :: xs, s =>
      match f x s with
      | (some e, s') => (some e, x :: xs, s')
      | (none, s') => drain f xs s'

/-- The operation with a log of its calls. -/
def recorded (f : Attempt α ε σ) : Attempt α ε (σ × List (Call α ε)) :=
  fun x c => ((f x c.1).1, ((f x c.1).2, c.2 ++ [⟨x, (f x c.1).1⟩]))

variable {f : Attempt α ε σ} {x : α} {xs : List α} {s s' : σ}

theorem drain_of_failure {e : ε} (h : f x s = (some e, s')) (xs : List α) :
    drain f (x :: xs) s = (some e, x :: xs, s') := by
  rw [drain, h]

theorem drain_of_success (h : f x s = (none, s')) (xs : List α) :
    drain f (x :: xs) s = drain f xs s' := by
  rw [drain, h]

/-- Nothing is left after a run without failure. -/
theorem drain_eq_none (f : Attempt α ε σ) (xs : List α) (s : σ)
    (h : (drain f xs s).1 = none) : (drain f xs s).2.1 = [] := by
  induction xs generalizing s with
  | nil => rfl
  | cons x xs ih =>
      rcases hf : f x s with ⟨_ | e, s'⟩
      · rw [drain_of_success hf] at h ⊢
        exact ih s' h
      · rw [drain_of_failure hf] at h
        exact absurd h (Option.some_ne_none e)

/-- The failure of a run is one of an operation. -/
theorem drain_eq_some (f : Attempt α ε σ) (xs : List α) (s : σ) {e : ε}
    (h : (drain f xs s).1 = some e) : ∃ x s', (f x s').1 = some e := by
  induction xs generalizing s with
  | nil => exact absurd h.symm (Option.some_ne_none e)
  | cons x xs ih =>
      rcases hf : f x s with ⟨_ | e', s'⟩
      · rw [drain_of_success hf] at h
        exact ih s' h
      · rw [drain_of_failure hf] at h
        exact ⟨x, s, by rw [hf]; exact h⟩

/-- The log changes nothing else. -/
theorem drain_recorded (f : Attempt α ε σ) (xs : List α) (c : σ × List (Call α ε)) :
    (drain (recorded f) xs c).1 = (drain f xs c.1).1
      ∧ (drain (recorded f) xs c).2.1 = (drain f xs c.1).2.1
      ∧ (drain (recorded f) xs c).2.2.1 = (drain f xs c.1).2.2 := by
  induction xs generalizing c with
  | nil => exact ⟨rfl, rfl, rfl⟩
  | cons x xs ih =>
      rcases hf : f x c.1 with ⟨_ | e, s'⟩
      · have hrec : recorded f x c = (none, (s', c.2 ++ [⟨x, none⟩])) := by
          rw [recorded, hf]
        rw [drain_of_success hf, drain_of_success hrec]
        exact ih _
      · have hrec : recorded f x c = (some e, (s', c.2 ++ [⟨x, some e⟩])) := by
          rw [recorded, hf]
        rw [drain_of_failure hf, drain_of_failure hrec]
        exact ⟨rfl, rfl, rfl⟩

/-! ## The calls of a run

    The stack is now written as a vector whose back is the top. -/

/-- The calls have taken the vector `old` to `kept`. -/
structure Drained (old kept : List α) (calls : List (Call α ε)) : Prop where
  /-- One success for every item removed, the back first; then at most one call,
      for the item at the back of what is left. -/
  removed : ∃ removed last, old = kept ++ removed
    ∧ calls = removed.reverse.map (fun x => ⟨x, none⟩) ++ last
    ∧ (last = [] ∨ ∃ x r, kept.getLast? = some x ∧ last = [⟨x, r⟩])
  /-- The work begins at the back. -/
  resumes : ∀ x, old.getLast? = some x → ∃ r, calls.head? = some ⟨x, r⟩

theorem drained_nil : Drained ([] : List α) [] ([] : List (Call α ε)) := by
  refine ⟨⟨[], [], rfl, rfl, Or.inl rfl⟩, ?_⟩
  intro x hx
  exact absurd hx.symm (Option.some_ne_none x)

/-- A single call that removes nothing. -/
theorem drained_single (old : List α) (x : α) (r : Option ε) :
    Drained (old ++ [x]) (old ++ [x]) [⟨x, r⟩] := by
  refine ⟨⟨[], [⟨x, r⟩], (List.append_nil _).symm, rfl,
    Or.inr ⟨x, r, List.getLast?_concat .., rfl⟩⟩, ?_⟩
  intro y hy
  rw [List.getLast?_concat] at hy
  obtain rfl := Option.some.inj hy
  exact ⟨r, rfl⟩

/-- A success in front of a run. -/
theorem Drained.concat {old kept : List α} {calls : List (Call α ε)} (h : Drained old kept calls)
    (x : α) : Drained (old ++ [x]) kept (⟨x, none⟩ :: calls) := by
  obtain ⟨⟨removed, last, hold, hcalls, hlast⟩, -⟩ := h
  refine ⟨⟨removed ++ [x], last, ?_, ?_, hlast⟩, ?_⟩
  · rw [hold, List.append_assoc]
  · rw [hcalls, List.reverse_append]
    rfl
  · intro y hy
    rw [List.getLast?_concat] at hy
    obtain rfl := Option.some.inj hy
    exact ⟨none, rfl⟩

/-- **The calls of a run.** -/
theorem drain_drained (f : Attempt α ε σ) (xs : List α) (c : σ × List (Call α ε)) :
    ∃ calls, (drain (recorded f) xs c).2.2.2 = c.2 ++ calls
      ∧ Drained xs.reverse (drain (recorded f) xs c).2.1.reverse calls := by
  induction xs generalizing c with
  | nil => exact ⟨[], (List.append_nil _).symm, drained_nil⟩
  | cons x xs ih =>
      rcases hf : f x c.1 with ⟨_ | e, s'⟩
      · have hrec : recorded f x c = (none, (s', c.2 ++ [⟨x, none⟩])) := by
          rw [recorded, hf]
        obtain ⟨calls, hlog, hdrained⟩ := ih (s', c.2 ++ [⟨x, none⟩])
        rw [drain_of_success hrec, List.reverse_cons]
        refine ⟨⟨x, none⟩ :: calls, ?_, hdrained.concat x⟩
        rw [hlog, List.append_assoc]
        rfl
      · have hrec : recorded f x c = (some e, (s', c.2 ++ [⟨x, some e⟩])) := by
          rw [recorded, hf]
        rw [drain_of_failure hrec, List.reverse_cons]
        exact ⟨[⟨x, some e⟩], rfl, drained_single xs.reverse x (some e)⟩

/-- The failure of a run is in its log. -/
theorem drain_failure_logged (f : Attempt α ε σ) (xs : List α) (c : σ × List (Call α ε)) {e : ε}
    (h : (drain (recorded f) xs c).1 = some e) :
    ∃ call ∈ (drain (recorded f) xs c).2.2.2, call.failure = some e := by
  induction xs generalizing c with
  | nil => exact absurd h.symm (Option.some_ne_none e)
  | cons x xs ih =>
      rcases hf : f x c.1 with ⟨_ | e', s'⟩
      · have hrec : recorded f x c = (none, (s', c.2 ++ [⟨x, none⟩])) := by
          rw [recorded, hf]
        rw [drain_of_success hrec] at h ⊢
        exact ih _ h
      · have hrec : recorded f x c = (some e', (s', c.2 ++ [⟨x, some e'⟩])) := by
          rw [recorded, hf]
        rw [drain_of_failure hrec] at h ⊢
        exact ⟨⟨x, some e'⟩, List.mem_append_right _ (List.mem_singleton_self _), h⟩

/-- The call succeeded. -/
def Call.Succeeded (c : Call α ε) : Bool := c.failure.isNone

/-- The items of the successful calls, in order. -/
def successes (calls : List (Call α ε)) : List α := (calls.filter Call.Succeeded).map Call.item

theorem successes_append (calls calls' : List (Call α ε)) :
    successes (calls ++ calls') = successes calls ++ successes calls' := by
  rw [successes, List.filter_append, List.map_append]
  rfl

/-- **The successful calls** of a run are those of the items it removes. -/
theorem drain_successes (f : Attempt α ε σ) (xs : List α) (c : σ × List (Call α ε)) :
    ∃ calls, (drain (recorded f) xs c).2.2.2 = c.2 ++ calls
      ∧ xs = successes calls ++ (drain (recorded f) xs c).2.1 := by
  induction xs generalizing c with
  | nil => exact ⟨[], (List.append_nil _).symm, rfl⟩
  | cons x xs ih =>
      rcases hf : f x c.1 with ⟨_ | e, s'⟩
      · have hrec : recorded f x c = (none, (s', c.2 ++ [⟨x, none⟩])) := by
          rw [recorded, hf]
        obtain ⟨calls, hlog, hxs⟩ := ih (s', c.2 ++ [⟨x, none⟩])
        rw [drain_of_success hrec]
        refine ⟨⟨x, none⟩ :: calls, ?_, congrArg (x :: ·) hxs⟩
        rw [hlog, List.append_assoc]
        rfl
      · have hrec : recorded f x c = (some e, (s', c.2 ++ [⟨x, some e⟩])) := by
          rw [recorded, hf]
        rw [drain_of_failure hrec]
        exact ⟨[⟨x, some e⟩], rfl, rfl⟩

variable {old kept : List α} {calls : List (Call α ε)}

/-- What is kept is a prefix. -/
theorem Drained.isPrefix (h : Drained old kept calls) : kept <+: old := by
  obtain ⟨⟨removed, -, hold, -⟩, -⟩ := h
  exact ⟨removed, hold.symm⟩

/-- **A failing item stays**, with all items in front of it. -/
theorem Drained.failure_kept (h : Drained old kept calls) {c : Call α ε} (hc : c ∈ calls)
    (hfail : c.failure ≠ none) : kept.getLast? = some c.item := by
  obtain ⟨⟨removed, last, -, hcalls, hlast⟩, -⟩ := h
  rw [hcalls] at hc
  rcases List.mem_append.mp hc with hc | hc
  · obtain ⟨x, -, rfl⟩ := List.mem_map.mp hc
    exact absurd rfl hfail
  · rcases hlast with rfl | ⟨x, r, hx, rfl⟩
    · exact absurd hc List.not_mem_nil
    · rw [List.mem_singleton.mp hc]
      exact hx

/-! ## Operations that all succeed -/

/-- Operations that act as `g` while `I` holds are all carried out. -/
theorem drain_of_sound {g : α → σ → σ} {I : α → σ → Prop}
    (hstep : ∀ x s, I x s → f x s = (none, g x s))
    (hkeep : ∀ x y s, I x s → I y s → I x (g y s)) (xs : List α) (s : σ)
    (h : ∀ x ∈ xs, I x s) : drain f xs s = (none, [], xs.foldl (fun s x => g x s) s) := by
  induction xs generalizing s with
  | nil => rfl
  | cons x xs ih =>
      have hx := h x (List.mem_cons_self ..)
      rw [drain_of_success (hstep x s hx)]
      exact ih (g x s) (fun y hy => hkeep y x s (h y (List.mem_cons_of_mem _ hy)) hx)

/-! ## One attempt for every item

    The other way to work off a list: every item is tried once, from the front,
    whatever becomes of the others. -/

/-- Tries every item once.  Returns the last failure and the state. -/
def sweep (f : Attempt α ε σ) : List α → σ → Option ε × σ
  | [], s => (none, s)
  | x :: xs, s => ((sweep f xs (f x s).2).1.or (f x s).1, (sweep f xs (f x s).2).2)

theorem sweep_cons (f : Attempt α ε σ) (x : α) (xs : List α) (s : σ) :
    sweep f (x :: xs) s
      = ((sweep f xs (f x s).2).1.or (f x s).1, (sweep f xs (f x s).2).2) := rfl

/-- Without a failure nothing distinguishes the two ways. -/
theorem sweep_of_drain (xs : List α) (s : σ) (h : (drain f xs s).1 = none) :
    sweep f xs s = (none, (drain f xs s).2.2) := by
  induction xs generalizing s with
  | nil => rfl
  | cons x xs ih =>
      rcases hf : f x s with ⟨_ | e, s'⟩
      · rw [drain_of_success hf] at h ⊢
        rw [sweep_cons, hf, ih s' h]
        rfl
      · rw [drain_of_failure hf] at h
        exact absurd h (Option.some_ne_none e)

/-- The calls of a sweep. -/
def sweepCalls (f : Attempt α ε σ) : List α → σ → List (Call α ε)
  | [], _ => []
  | x :: xs, s => ⟨x, (f x s).1⟩ :: sweepCalls f xs (f x s).2

/-- **Every item gets one call**, in order. -/
theorem sweepCalls_items (f : Attempt α ε σ) (xs : List α) (s : σ) :
    (sweepCalls f xs s).map Call.item = xs := by
  induction xs generalizing s with
  | nil => rfl
  | cons x xs ih => exact congrArg (x :: ·) (ih (f x s).2)

/-- The log has these calls and changes nothing else. -/
theorem sweep_recorded (f : Attempt α ε σ) (xs : List α) (c : σ × List (Call α ε)) :
    sweep (recorded f) xs c
      = ((sweep f xs c.1).1, ((sweep f xs c.1).2, c.2 ++ sweepCalls f xs c.1)) := by
  induction xs generalizing c with
  | nil => exact congrArg (fun l => (none, (c.1, l))) (List.append_nil c.2).symm
  | cons x xs ih =>
      rw [sweep_cons, ih, sweep_cons]
      show (_, (_, (c.2 ++ [_]) ++ _)) = _
      rw [List.append_assoc]
      rfl

end RetryStack
