import VmUtils.QueryRangeResult

/-! # The gap filler round by round

    `fill_region_gaps` inserts into the vector it indexes, so the index and the
    bound of the loop drift away from the positions the regions had on entry.
    Here every region carries that position (`Slot`), and the loop is run round
    by round with a record of the pairs it compares.  After `n` rounds the first
    `n + 1` regions are interleaved with their gaps, the index stands behind
    them, and the pairs compared are the first `n` pairs of neighbours
    (`GapLoop.Progress`). -/

namespace VmUtils

open Intervals

variable {w : Nat}

/-! ## The loop -/

/-- A region with its index on entry; an inserted region has none. -/
structure Slot (w : Nat) where
  region : BasicRegion w
  origin : Option Nat
  deriving DecidableEq, Repr

/-- The region emplaced between two that do not touch. -/
def Slot.gap (p q : Slot w) : Slot w :=
  { region := BasicRegion.free p.region.end q.region.begin, origin := none }

/-- The variables of `fill_region_gaps`, and the pairs `regions[i - 1]`,
    `regions[i]` compared so far. -/
structure GapLoop (w : Nat) where
  slots : List (Slot w)
  i : Nat
  compared : List (Slot w × Slot w)

/-- The regions on entry with their indices. -/
def entrySlots (regions : List (BasicRegion w)) : List (Slot w) :=
  regions.zipIdx.map (fun r => { region := r.1, origin := some r.2 })

/-- The loop is entered with `i = 1`. -/
def GapLoop.entry (regions : List (BasicRegion w)) : GapLoop w :=
  { slots := entrySlots regions, i := 1, compared := [] }

/-- One round; the loop ends where `i < regions.size()` fails. -/
def GapLoop.step (s : GapLoop w) : Option (GapLoop w) :=
  if h : s.i < s.slots.length then
    have hprev : s.i - 1 < s.slots.length := by omega
    let p := s.slots[s.i - 1]
    let q := s.slots[s.i]
    if q.region.begin ≠ p.region.end then
      -- `i` is incremented twice to skip the newly inserted region
      some { slots := s.slots.insertIdx s.i (Slot.gap p q), i := s.i + 2,
             compared := s.compared ++ [(p, q)] }
    else
      some { s with i := s.i + 1, compared := s.compared ++ [(p, q)] }
  else none

/-- The state after `n` rounds. -/
def GapLoop.after : Nat → GapLoop w → Option (GapLoop w)
  | 0, s => some s
  | n + 1, s => s.step.bind (GapLoop.after n)

/-- The vector. -/
def GapLoop.regions (s : GapLoop w) : List (BasicRegion w) := s.slots.map Slot.region

/-! ## The instrumented loop is the loop of the source -/

/-- A round is a round of `fillRegionGapsLoop`. -/
theorem GapLoop.step_regions {s s' : GapLoop w} (h : s.step = some s') :
    fillRegionGapsLoop s.regions s.i = fillRegionGapsLoop s'.regions s'.i := by
  rw [GapLoop.step] at h
  by_cases hi : s.i < s.slots.length
  · have hlen : s.i < s.regions.length := by
      rw [GapLoop.regions, List.length_map]
      exact hi
    rw [dif_pos hi] at h
    dsimp only at h
    rw [fillRegionGapsLoop, dif_pos hlen]
    simp only [GapLoop.regions, List.getElem_map] at h ⊢
    by_cases hgap : s.slots[s.i].region.begin ≠ s.slots[s.i - 1].region.end
    · rw [if_pos hgap] at h
      obtain rfl := Option.some.inj h
      rw [if_pos hgap, List.map_insertIdx]
      rfl
    · rw [if_neg hgap] at h
      obtain rfl := Option.some.inj h
      rw [if_neg hgap]
  · rw [dif_neg hi] at h
    cases h

/-- Where the loop ends the vector is the result. -/
theorem GapLoop.regions_of_end {s : GapLoop w} (h : s.slots.length ≤ s.i) :
    fillRegionGapsLoop s.regions s.i = s.regions := by
  rw [fillRegionGapsLoop, dif_neg]
  rw [GapLoop.regions, List.length_map]
  exact Nat.not_lt.mpr h

/-- Rounds are rounds of `fillRegionGapsLoop`. -/
theorem GapLoop.after_regions {n : Nat} {s s' : GapLoop w} (h : s.after n = some s') :
    fillRegionGapsLoop s.regions s.i = fillRegionGapsLoop s'.regions s'.i := by
  induction n generalizing s with
  | zero => rw [Option.some.inj h]
  | succ n ih =>
      obtain ⟨s₁, hstep, hrest⟩ := Option.bind_eq_some_iff.mp h
      rw [GapLoop.step_regions hstep]
      exact ih hrest

@[simp] theorem entry_regions (regions : List (BasicRegion w)) :
    (GapLoop.entry regions).regions = regions := by
  rw [GapLoop.regions, GapLoop.entry, entrySlots, List.map_map]
  exact List.zipIdx_map_fst 0 regions

/-! ## Interleaving -/

/-- What belongs between two neighbours. -/
def gapBetween (p q : Slot w) : List (Slot w) :=
  if q.region.begin ≠ p.region.end then [Slot.gap p q] else []

/-- Every region, and behind it the gap to its successor. -/
def interleave : List (Slot w) → List (Slot w)
  | [] => []
  | t :: ts => t :: (neighbours (t :: ts)).flatMap (fun pq => gapBetween pq.1 pq.2 ++ [pq.2])

theorem interleave_concat (front : List (Slot w)) (p q : Slot w) :
    interleave (front ++ [p] ++ [q]) = interleave (front ++ [p]) ++ gapBetween p q ++ [q] := by
  have hpairs := neighbours_concat front p q
  cases front with
  | nil => simp [interleave, neighbours]
  | cons t front =>
      have hflat : (neighbours (t :: front ++ [p] ++ [q])).flatMap
            (fun pq => gapBetween pq.1 pq.2 ++ [pq.2])
          = (neighbours (t :: front ++ [p])).flatMap (fun pq => gapBetween pq.1 pq.2 ++ [pq.2])
            ++ (gapBetween p q ++ [q]) := by
        rw [hpairs, List.flatMap_append, List.flatMap_singleton]
      exact (congrArg (t :: ·) hflat).trans (by rw [List.append_assoc]; rfl)

/-- The last region stays last. -/
theorem interleave_getLast (front : List (Slot w)) (p : Slot w) :
    ∃ done, interleave (front ++ [p]) = done ++ [p] := by
  induction front using List.reverseRecOn with
  | nil => exact ⟨[], rfl⟩
  | append_singleton front t _ => exact ⟨_, interleave_concat front t p⟩

/-! ## Progress -/

/-- The state when the regions of `front` and `p` are behind the index and those
    of `rest` in front of it. -/
structure GapLoop.Progress (front : List (Slot w)) (p : Slot w) (rest : List (Slot w))
    (s : GapLoop w) : Prop where
  slots_eq : s.slots = interleave (front ++ [p]) ++ rest
  i_eq : s.i = (interleave (front ++ [p])).length
  compared_eq : s.compared = neighbours (front ++ [p])

/-- **One round** compares the last finished region with the next one. -/
theorem GapLoop.Progress.step {front rest : List (Slot w)} {p q : Slot w} {s : GapLoop w}
    (h : s.Progress front p (q :: rest)) :
    ∃ s', s.step = some s' ∧ s'.Progress (front ++ [p]) q rest := by
  obtain ⟨done, hdone⟩ := interleave_getLast front p
  have hslots : s.slots = done ++ p :: q :: rest := by
    rw [h.slots_eq, hdone, List.append_assoc]
    rfl
  have hi : s.i = done.length + 1 := by
    rw [h.i_eq, hdone, List.length_append, List.length_singleton]
  have hlt : s.i < s.slots.length := by
    rw [hi, hslots]
    simp
  have hq : s.slots[s.i] = q := by
    simp [hslots, hi, List.getElem_append_right]
  have hp : s.slots[s.i - 1] = p := by
    simp [hslots, hi]
  have hnext := interleave_concat front p q
  rw [hdone] at hnext
  rw [GapLoop.step, dif_pos hlt]
  dsimp only
  rw [hq, hp]
  by_cases hgap : q.region.begin ≠ p.region.end
  · -- the vector grows: `p` and the inserted region are finished
    rw [gapBetween, if_pos hgap] at hnext
    rw [if_pos hgap]
    refine ⟨_, rfl, ?_, ?_, ?_⟩
    · show s.slots.insertIdx s.i (Slot.gap p q) = _
      rw [hslots, hi, insertIdx_behind, hnext]
      simp
    · show s.i + 2 = _
      rw [hi, hnext]
      simp
    · show s.compared ++ [(p, q)] = _
      rw [h.compared_eq, neighbours_concat]
  · rw [gapBetween, if_neg hgap] at hnext
    rw [if_neg hgap]
    refine ⟨_, rfl, ?_, ?_, ?_⟩
    · show s.slots = _
      rw [hslots, hnext]
      simp
    · show s.i + 1 = _
      rw [hi, hnext]
      simp
    · show s.compared ++ [(p, q)] = _
      rw [h.compared_eq, neighbours_concat]

/-- **The whole loop**: one round for every region still in front of the index. -/
theorem GapLoop.Progress.run (rest : List (Slot w)) :
    ∀ (front : List (Slot w)) (p : Slot w) (s : GapLoop w), s.Progress front p rest →
      ∃ s', s.after rest.length = some s' ∧ s'.slots.length ≤ s'.i
        ∧ s'.slots = interleave (front ++ p :: rest)
        ∧ s'.compared = neighbours (front ++ p :: rest) := by
  induction rest with
  | nil =>
      intro front p s h
      have hslots : s.slots = interleave (front ++ [p]) := by
        rw [h.slots_eq, List.append_nil]
      refine ⟨s, rfl, ?_, hslots, h.compared_eq⟩
      rw [h.i_eq, hslots]
  | cons q rest ih =>
      intro front p s h
      obtain ⟨s₁, hstep, h₁⟩ := h.step
      obtain ⟨s', hrun, hend, hslots, hcompared⟩ := ih (front ++ [p]) q s₁ h₁
      rw [List.append_assoc] at hslots hcompared
      refine ⟨s', ?_, hend, hslots, hcompared⟩
      show s.step.bind (GapLoop.after rest.length) = some s'
      rw [hstep]
      exact hrun

/-- The loop ends after one round for every region but the first. -/
theorem GapLoop.entry_run (regions : List (BasicRegion w)) :
    ∃ s', (GapLoop.entry regions).after (regions.length - 1) = some s'
      ∧ s'.slots.length ≤ s'.i ∧ s'.slots = interleave (entrySlots regions)
      ∧ s'.compared = neighbours (entrySlots regions) := by
  have hlen : (entrySlots regions).length = regions.length := by
    rw [entrySlots, List.length_map, List.length_zipIdx]
  cases hslots : entrySlots regions with
  | nil =>
      rw [hslots] at hlen
      rw [← hlen]
      refine ⟨GapLoop.entry regions, rfl, ?_, hslots, rfl⟩
      show (entrySlots regions).length ≤ 1
      rw [hslots]
      exact Nat.zero_le 1
  | cons t ts =>
      rw [hslots, List.length_cons] at hlen
      rw [← hlen]
      exact GapLoop.Progress.run ts [] t _ ⟨hslots, rfl, rfl⟩

/-! ## The result -/

/-- A region of the interleaving is there already or fills a gap. -/
theorem mem_interleave {t : Slot w} {ts : List (Slot w)} (h : t ∈ interleave ts) :
    t ∈ ts ∨ ∃ p q, (p, q) ∈ neighbours ts ∧ q.region.begin ≠ p.region.end
      ∧ t = Slot.gap p q := by
  cases ts with
  | nil => exact nomatch h
  | cons x ts =>
      rcases List.mem_cons.mp h with rfl | h
      · exact Or.inl (List.mem_cons_self ..)
      · obtain ⟨⟨p, q⟩, hpq, ht⟩ := List.mem_flatMap.mp h
        rcases List.mem_append.mp ht with ht | ht
        · by_cases hgap : q.region.begin ≠ p.region.end
          · rw [gapBetween, if_pos hgap] at ht
            exact Or.inr ⟨p, q, hpq, hgap, List.mem_singleton.mp ht⟩
          · rw [gapBetween, if_neg hgap] at ht
            exact nomatch ht
        · obtain rfl := List.mem_singleton.mp ht
          exact Or.inl ((mem_neighbours.mp hpq).subset (by simp))

/-- Without the inserted regions the interleaving is what it was made of. -/
theorem filter_interleave {ts : List (Slot w)} (h : ∀ t ∈ ts, t.origin.isSome = true) :
    (interleave ts).filter (fun t => t.origin.isSome) = ts := by
  induction ts using List.reverseRecOn with
  | nil => rfl
  | append_singleton ts q ih =>
      have hq : q.origin.isSome = true := h q (by simp)
      have hts := ih (fun t ht => h t (List.mem_append_left _ ht))
      cases ts using List.reverseRecOn with
      | nil => simp [interleave, neighbours, hq]
      | append_singleton front p =>
          have hgap : (gapBetween p q).filter (fun t => t.origin.isSome) = [] := by
            rw [gapBetween]
            split
            · rfl
            · rfl
          have hlast : [q].filter (fun t => t.origin.isSome) = [q] := by simp [hq]
          rw [interleave_concat, List.filter_append, List.filter_append, hts, hgap, hlast,
            List.append_nil]

/-- Every region on entry has an index. -/
theorem entrySlots_origin {regions : List (BasicRegion w)} :
    ∀ t ∈ entrySlots regions, t.origin.isSome = true := by
  intro t ht
  obtain ⟨r, -, rfl⟩ := List.mem_map.mp ht
  rfl

/-- **`fill_region_gaps`**: the loop ends, the regions on entry stay in order,
    exactly the neighbours that do not touch get a free region between them, and
    the pairs compared are the neighbours on entry. -/
theorem fillRegionGaps_inserts (regions : List (BasicRegion w)) :
    ∃ s : GapLoop w,
      (GapLoop.entry regions).after (regions.length - 1) = some s ∧ s.step = none
      ∧ fillRegionGaps regions = s.regions
      ∧ s.slots = interleave (entrySlots regions)
      ∧ s.slots.filter (fun t => t.origin.isSome) = entrySlots regions
      ∧ (entrySlots regions).map Slot.region = regions
      ∧ (∀ t ∈ s.slots, t.origin = none → ∃ p q, (p, q) ∈ neighbours (entrySlots regions)
          ∧ q.region.begin ≠ p.region.end ∧ t.region.begin = p.region.end
          ∧ t.region.endAddr = q.region.begin ∧ t.region.used = false)
      ∧ s.compared = neighbours (entrySlots regions)
      ∧ ∀ c ∈ s.compared, c.1.origin ≠ none := by
  obtain ⟨s, hrun, hend, hslots, hcompared⟩ := GapLoop.entry_run regions
  have hresult : fillRegionGaps regions = s.regions := by
    rw [← GapLoop.regions_of_end hend, ← GapLoop.after_regions hrun, entry_regions]
    rfl
  have hstop : s.step = none := by
    rw [GapLoop.step, dif_neg (Nat.not_lt.mpr hend)]
  refine ⟨s, hrun, hstop, hresult, hslots, ?_, entry_regions regions, ?_, hcompared, ?_⟩
  · rw [hslots]
    exact filter_interleave entrySlots_origin
  · intro t ht hnone
    rw [hslots] at ht
    rcases mem_interleave ht with ht | ⟨p, q, hpq, hgap, rfl⟩
    · have hsome := entrySlots_origin t ht
      rw [hnone] at hsome
      exact nomatch hsome
    · exact ⟨p, q, hpq, hgap, rfl, rfl, rfl⟩
  · intro c hc hnone
    rw [hcompared] at hc
    have hmem : c.1 ∈ entrySlots regions := (mem_neighbours.mp hc).subset (by simp)
    have hsome := entrySlots_origin c.1 hmem
    rw [hnone] at hsome
    exact nomatch hsome

end VmUtils
