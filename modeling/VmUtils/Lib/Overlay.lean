import Mathlib

/-! # Writes on sets of cells, and scoped overrides

    A state is a function on cells.  A write puts one value on a set of cells;
    after a list of writes a cell holds what the last write that touches it put
    there (`replay_apply`), and replaying the list from the back leaves the
    first one's value instead (`replay_reverse_apply`).

    A scope changes cells inside its set and puts their old values back when it
    is left.  Scopes left in the opposite order of entry undo all changes, even
    when their sets overlap: what is invariant is the state that leaving every
    open scope would give (`unwind_move`). -/

namespace Overlay

open Classical Relation

variable {ι α : Type}

/-- The state `s` with the values of `v` on the cells of `S`. -/
noncomputable def put (S : Set ι) (v s : ι → α) : ι → α := fun i => if i ∈ S then v i else s i

theorem put_mem {S : Set ι} {i : ι} (h : i ∈ S) (v s : ι → α) : put S v s i = v i := if_pos h

theorem put_not_mem {S : Set ι} {i : ι} (h : i ∉ S) (v s : ι → α) : put S v s i = s i := if_neg h

theorem put_empty (v s : ι → α) : put ∅ v s = s := by
  ext i
  exact put_not_mem (Set.notMem_empty i) v s

/-! ## Lists of writes -/

/-- One value for a set of cells. -/
structure Write (ι α : Type) where
  cells : Set ι
  value : α

/-- A write carried out. -/
noncomputable def Write.apply (w : Write ι α) (s : ι → α) : ι → α :=
  put w.cells (fun _ => w.value) s

/-- Writes carried out from the front to the back. -/
noncomputable def replay (ws : List (Write ι α)) (s : ι → α) : ι → α :=
  ws.foldl (fun s w => w.apply s) s

theorem replay_nil (s : ι → α) : replay [] s = s := rfl

theorem replay_cons (w : Write ι α) (ws : List (Write ι α)) (s : ι → α) :
    replay (w :: ws) s = replay ws (w.apply s) := rfl

theorem replay_append (ws ws' : List (Write ι α)) (s : ι → α) :
    replay (ws ++ ws') s = replay ws' (replay ws s) := List.foldl_append

/-- The writes of a list that touch the cell `i`. -/
noncomputable def touching (i : ι) (ws : List (Write ι α)) : List (Write ι α) :=
  ws.filter (fun w => decide (i ∈ w.cells))

theorem touching_append (i : ι) (ws ws' : List (Write ι α)) :
    touching i (ws ++ ws') = touching i ws ++ touching i ws' := List.filter_append ..

theorem touching_cons_of_mem {i : ι} {w : Write ι α} (h : i ∈ w.cells)
    (ws : List (Write ι α)) : touching i (w :: ws) = w :: touching i ws :=
  List.filter_cons_of_pos (decide_eq_true h)

theorem touching_cons_of_not_mem {i : ι} {w : Write ι α} (h : i ∉ w.cells)
    (ws : List (Write ι α)) : touching i (w :: ws) = touching i ws :=
  List.filter_cons_of_neg (fun hw => h (of_decide_eq_true hw))

/-- **The last write wins.** -/
theorem replay_apply (i : ι) (ws : List (Write ι α)) (s : ι → α) :
    replay ws s i = ((touching i ws).getLast?.map Write.value).getD (s i) := by
  -- from the back: the last write decides, or it can be dropped
  induction ws using List.reverseRecOn with
  | nil => rfl
  | append_singleton ws w ih =>
      rw [replay_append, replay_cons, replay_nil, touching_append]
      by_cases h : i ∈ w.cells
      · rw [touching_cons_of_mem h, List.getLast?_append]
        exact put_mem h _ _
      · rw [touching_cons_of_not_mem h]
        have hnil : touching i ([] : List (Write ι α)) = [] := rfl
        rw [hnil, List.append_nil, ← ih]
        exact put_not_mem h _ _

/-- Replayed from the back, the first write wins. -/
theorem replay_reverse_apply (i : ι) (ws : List (Write ι α)) (s : ι → α) :
    replay ws.reverse s i = ((touching i ws).head?.map Write.value).getD (s i) := by
  rw [replay_apply, touching, List.filter_reverse, List.getLast?_reverse]
  rfl

/-! ## Scoped overrides -/

/-- An open scope: the cells it may change, and the state it was entered in. -/
structure Scope (ι α : Type) where
  cells : Set ι
  saved : ι → α

/-- The state after all scopes of a stack have been left. -/
noncomputable def unwind : List (Scope ι α) → (ι → α) → ι → α
  | [], s => s
  | f :: fs, s => unwind fs (put f.cells f.saved s)

/-- One step of a program with scopes: enter one and change cells inside its
    set, or leave the innermost one. -/
inductive Move : List (Scope ι α) × (ι → α) → List (Scope ι α) × (ι → α) → Prop
  | enter (fs : List (Scope ι α)) (s : ι → α) (S : Set ι) (s' : ι → α)
      (frame : ∀ i, i ∉ S → s' i = s i) : Move (fs, s) (⟨S, s⟩ :: fs, s')
  | leave (f : Scope ι α) (fs : List (Scope ι α)) (s : ι → α) :
      Move (f :: fs, s) (fs, put f.cells f.saved s)

/-- A step does not change what unwinding gives. -/
theorem unwind_move {c c' : List (Scope ι α) × (ι → α)} (h : Move c c') :
    unwind c'.1 c'.2 = unwind c.1 c.2 := by
  cases h with
  | enter fs s S s' frame =>
      -- leaving the scope at once puts back all that entering it changed
      show unwind fs (put S s s') = unwind fs s
      congr 1
      ext i
      by_cases hi : i ∈ S
      · exact put_mem hi s s'
      · rw [put_not_mem hi, frame i hi]
  | leave f fs s => rfl

theorem unwind_run {c c' : List (Scope ι α) × (ι → α)} (h : ReflTransGen Move c c') :
    unwind c'.1 c'.2 = unwind c.1 c.2 := by
  induction h with
  | refl => rfl
  | tail _ step ih => rw [unwind_move step, ih]

/-- **Balanced scopes restore the state**, whatever they overlap. -/
theorem balanced_run {s s' : ι → α} (h : ReflTransGen Move ([], s) ([], s')) : s' = s :=
  unwind_run h

end Overlay
