import VmUtils.Lib.Overlay

/-! # Runs written back with the cell behind them

    A state is cut into runs of cells that hold one value.  The runs are entered
    one behind the other (`EnteredAt`), and the value of each is written back on
    its cells and on the first cell behind it (`Run.write`).  From the front the
    next run repairs that cell, so that only the cell behind the last run can be
    left wrong (`replay_runs_eq_iff`).  From the back nothing repairs it, so that
    all runs have to agree (`replay_reverse_runs_eq_iff`). -/

namespace Runs

open Overlay

variable {α : Type}

/-- The cells from `lo` up to `hi`, with one value. -/
structure Run (α : Type) where
  lo : Nat
  hi : Nat
  value : α

/-- The state holds the value on the run. -/
def Run.HoldsIn (r : Run α) (s : Nat → α) : Prop := ∀ q, r.lo ≤ q → q < r.hi → s q = r.value

/-- The run written back inside the cells from `a` to `b`, with the cell behind it. -/
def Run.write (a b : Nat) (r : Run α) : Write Nat α where
  cells := Set.Icc (max r.lo a) (min r.hi b)
  value := r.value

/-- The first run is entered at the cell `c`, every other one at the cell behind
    the run in front. -/
def EnteredAt (s : Nat → α) : Nat → List (Run α) → Prop
  | _, [] => True
  | c, r :: rs => r.HoldsIn s ∧ r.lo ≤ c ∧ c < r.hi ∧ EnteredAt s r.hi rs

/-- The cell behind the last run. -/
def reached : Nat → List (Run α) → Nat
  | c, [] => c
  | _, r :: rs => reached r.hi rs

variable {a b c q : Nat} {s t : Nat → α} {rs : List (Run α)}

/-- Every run ends behind the cell at which the first one is entered. -/
theorem EnteredAt.lt_hi (h : EnteredAt s c rs) : ∀ r ∈ rs, c < r.hi := by
  induction rs generalizing c with
  | nil =>
      intro r hr
      cases hr
  | cons x rs ih =>
      obtain ⟨-, -, hlt, hrest⟩ := h
      intro r hr
      rcases List.mem_cons.mp hr with rfl | hr
      · exact hlt
      · exact Nat.lt_trans hlt (ih hrest r hr)

theorem EnteredAt.le_reached (h : EnteredAt s c rs) : c ≤ reached c rs := by
  induction rs generalizing c with
  | nil => exact Nat.le_refl c
  | cons x rs ih =>
      obtain ⟨-, -, hlt, hrest⟩ := h
      exact Nat.le_trans (Nat.le_of_lt hlt) (ih hrest)

theorem EnteredAt.lt_reached (h : EnteredAt s c rs) (hne : rs ≠ []) : c < reached c rs := by
  cases rs with
  | nil => exact absurd rfl hne
  | cons r rs =>
      obtain ⟨-, -, hlt, hrest⟩ := h
      exact Nat.lt_of_lt_of_le hlt hrest.le_reached

/-- Two neighbouring cells with no end of a run between them hold one value. -/
theorem EnteredAt.eq_of_not_end (h : EnteredAt s c rs) (hc : c < q) (hq : q ≤ reached c rs)
    (hend : q ∉ rs.map Run.hi) : s (q - 1) = s q := by
  induction rs generalizing c with
  | nil => exact absurd hc (Nat.not_lt.mpr hq)
  | cons r rs ih =>
      obtain ⟨hholds, hlo, -, hrest⟩ := h
      rw [List.map_cons, List.mem_cons, not_or] at hend
      by_cases hlt : q < r.hi
      · rw [hholds (q - 1) (by omega) (by omega), hholds q (by omega) hlt]
      · exact ih hrest (by omega) hq hend.2

/-! ## The writes -/

theorem apply_write_mem {r : Run α} (h1 : r.lo ≤ q) (h2 : a ≤ q) (h3 : q ≤ r.hi) (h4 : q ≤ b)
    (t : Nat → α) : (r.write a b).apply t q = r.value := by
  have hq : q ∈ (r.write a b).cells := ⟨max_le h1 h2, le_min h3 h4⟩
  exact put_mem hq _ _

theorem apply_write_behind {r : Run α} (h : r.hi < q) (t : Nat → α) :
    (r.write a b).apply t q = t q :=
  put_not_mem (fun hq => absurd (le_min_iff.mp hq.2).1 (Nat.not_le.mpr h)) _ _

theorem apply_write_front {r : Run α} (h : q < r.lo) (t : Nat → α) :
    (r.write a b).apply t q = t q :=
  put_not_mem (fun hq => absurd (max_le_iff.mp hq.1).1 (Nat.not_le.mpr h)) _ _

theorem apply_write_outside {r : Run α} (h : ¬ (a ≤ q ∧ q ≤ b)) (t : Nat → α) :
    (r.write a b).apply t q = t q :=
  put_not_mem (fun hq => h ⟨(max_le_iff.mp hq.1).2, (le_min_iff.mp hq.2).2⟩) _ _

/-- The writes stay inside their bounds. -/
theorem replay_outside (h : ¬ (a ≤ q ∧ q ≤ b)) (rs : List (Run α)) (t : Nat → α) :
    replay (rs.map (Run.write a b)) t q = t q := by
  induction rs generalizing t with
  | nil => rfl
  | cons r rs ih => rw [List.map_cons, replay_cons, ih, apply_write_outside h]

/-! ## From the front -/

/-- Behind each write all cells in front of the next run are right. -/
theorem replay_front (h : EnteredAt s c rs) (ha : a ≤ c)
    (ht : ∀ p, a ≤ p → p < c → p ≤ b → t p = s p) (hq : a ≤ q) (hqb : q ≤ b)
    (hlt : q < reached c rs) : replay (rs.map (Run.write a b)) t q = s q := by
  induction rs generalizing c t with
  | nil => exact ht q hq hlt hqb
  | cons r rs ih =>
      obtain ⟨hholds, hlo, hhi, hrest⟩ := h
      rw [List.map_cons, replay_cons]
      refine ih hrest (by omega) ?_ hlt
      intro p hp hpr hpb
      by_cases hin : r.lo ≤ p
      · rw [apply_write_mem hin hp (Nat.le_of_lt hpr) hpb, hholds p hin hpr]
      · rw [apply_write_front (Nat.lt_of_not_le hin), ht p hp (by omega) hpb]

/-- The cell behind the last run gets the value of that run. -/
theorem replay_reached (h : EnteredAt s c rs) (hne : rs ≠ []) (ha : a ≤ c)
    (hb : reached c rs ≤ b) (t : Nat → α) :
    replay (rs.map (Run.write a b)) t (reached c rs) = s (reached c rs - 1) := by
  induction rs generalizing c t with
  | nil => exact absurd rfl hne
  | cons r rs ih =>
      obtain ⟨hholds, hlo, hhi, hrest⟩ := h
      rw [List.map_cons, replay_cons]
      cases rs with
      | nil =>
          show (r.write a b).apply t r.hi = s (r.hi - 1)
          have hb' : r.hi ≤ b := hb
          rw [apply_write_mem (by omega) (by omega) (Nat.le_refl _) hb',
            hholds (r.hi - 1) (by omega) (by omega)]
      | cons r' rs => exact ih hrest (List.cons_ne_nil _ _) (by omega) hb _

/-- **Written back from the front**, the runs restore the cells from `a` to `b`
    exactly if the cell behind the last run is not one of them or holds what the
    cell in front of it does. -/
theorem replay_runs_eq_iff (h : EnteredAt s a rs) (hne : rs ≠ []) (hb : b ≤ reached a rs)
    (t : Nat → α) :
    replay (rs.map (Run.write a b)) t = put (Set.Icc a b) s t
      ↔ (reached a rs = b → s (b - 1) = s b) := by
  have hlt := h.lt_reached hne
  constructor
  · intro heq hend
    have hmem : b ∈ Set.Icc a b := ⟨by omega, Nat.le_refl b⟩
    have hlast := replay_reached h hne (Nat.le_refl a) (b := b) (Nat.le_of_eq hend) t
    rw [hend] at hlast
    rw [← hlast, heq, put_mem hmem]
  · intro hend
    ext q : 1
    by_cases hq : a ≤ q ∧ q ≤ b
    · rw [put_mem (show q ∈ Set.Icc a b from hq)]
      by_cases hqr : q < reached a rs
      · exact replay_front h (Nat.le_refl a) (by omega) hq.1 hq.2 hqr
      · obtain rfl : q = b := by omega
        have hreached : reached a rs = q := by omega
        have hlast := replay_reached h hne (Nat.le_refl a) (b := q) (Nat.le_of_eq hreached) t
        rw [hreached] at hlast
        rw [hlast, hend hreached]
    · rw [replay_outside hq, put_not_mem (show q ∉ Set.Icc a b from hq)]

/-! ## From the back -/

/-- From the back the first run that reaches a cell decides, and it takes the
    cell behind it for its own. -/
theorem replay_reverse_runs (h : EnteredAt s c rs) (hne : rs ≠ []) (ha : a ≤ c) (hc : c ≤ q)
    (hqb : q ≤ b) (hq : q ≤ reached c rs) (t : Nat → α) :
    replay (rs.map (Run.write a b)).reverse t q
      = if q ∈ rs.map Run.hi then s (q - 1) else s q := by
  induction rs generalizing c with
  | nil => exact absurd rfl hne
  | cons r rs ih =>
      obtain ⟨hholds, hlo, hhi, hrest⟩ := h
      rw [List.map_cons, List.reverse_cons, replay_append, replay_cons, replay_nil]
      by_cases hle : q ≤ r.hi
      · rw [apply_write_mem (by omega) (by omega) hle hqb]
        by_cases heq : q = r.hi
        · rw [if_pos (heq ▸ List.mem_cons_self ..), hholds (q - 1) (by omega) (by omega)]
        · have hnot : q ∉ (r :: rs).map Run.hi := by
            rw [List.map_cons, List.mem_cons]
            rintro (hq' | hq')
            · exact heq hq'
            · obtain ⟨r', hr', rfl⟩ := List.mem_map.mp hq'
              exact absurd (hrest.lt_hi r' hr') (Nat.not_lt.mpr hle)
          rw [if_neg hnot, hholds q (by omega) (by omega)]
      · have hlt : r.hi < q := Nat.lt_of_not_le hle
        have hne' : rs ≠ [] := by
          rintro rfl
          exact hle hq
        rw [apply_write_behind hlt, ih hrest hne' (by omega) (Nat.le_of_lt hlt) hq]
        simp only [List.map_cons, List.mem_cons, Nat.ne_of_gt hlt, false_or]

/-- **Written back from the back**, the runs restore the cells from `a` to `b`
    exactly if these hold one value. -/
theorem replay_reverse_runs_eq_iff (h : EnteredAt s a rs) (hne : rs ≠ [])
    (hb : b ≤ reached a rs) (t : Nat → α) :
    replay (rs.map (Run.write a b)).reverse t = put (Set.Icc a b) s t
      ↔ ∀ q, a < q → q ≤ b → s (q - 1) = s q := by
  constructor
  · intro heq q hq hqb
    by_cases hend : q ∈ rs.map Run.hi
    · have hrun := replay_reverse_runs h hne (Nat.le_refl a) (Nat.le_of_lt hq) hqb (by omega) t
      rw [heq, if_pos hend, put_mem (show q ∈ Set.Icc a b from ⟨Nat.le_of_lt hq, hqb⟩)] at hrun
      exact hrun.symm
    · exact h.eq_of_not_end hq (by omega) hend
  · intro hsame
    ext q : 1
    by_cases hq : a ≤ q ∧ q ≤ b
    · rw [put_mem (show q ∈ Set.Icc a b from hq),
        replay_reverse_runs h hne (Nat.le_refl a) hq.1 hq.2 (by omega) t]
      by_cases hend : q ∈ rs.map Run.hi
      · obtain ⟨r, hr, rfl⟩ := List.mem_map.mp hend
        rw [if_pos hend, hsame _ (h.lt_hi r hr) hq.2]
      · rw [if_neg hend]
    · rw [← List.map_reverse, replay_outside hq, put_not_mem (show q ∉ Set.Icc a b from hq)]

end Runs
