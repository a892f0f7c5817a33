import VmUtils.GuardDestructor

/-! # Replaying saved entries

    A saved entry is a write of one protection on the pages that meet its range.
    As long as every entry can be replayed no call fails (`drain_replayable`), and
    the destructor replays the writes from the front and `restore` from the back. -/

namespace VmUtils

open Overlay Pages RetryStack

/-- The write an entry stands for. -/
def entryWrite (ps : PageSize) (e : OldProtStorage) : Write Nat (Option NativeProtection) where
  cells := pagesMeeting ps.bytes e.beginAddr.toNat e.endAddr.toNat
  value := some e.prot

/-- An entry whose replay succeeds in the state `s`. -/
structure Replayable (ps : PageSize) (s : PageMap) (e : OldProtStorage) : Prop where
  bounds : SaneBounds ps e.beginAddr e.endAddr
  rwx : e.prot < 8
  mapped : ∀ q ∈ (entryWrite ps e).cells, (s q).isSome

variable {ps : PageSize} {os : Posix PageMap} {s : PageMap}

/-- A write does not unmap a page. -/
theorem isSome_apply (e : OldProtStorage) {q : Nat} (h : (s q).isSome) :
    ((entryWrite ps e).apply s q).isSome := by
  by_cases hq : q ∈ (entryWrite ps e).cells
  · rw [Write.apply, put_mem hq]
    rfl
  · rw [Write.apply, put_not_mem hq]
    exact h

theorem Replayable.after {e : OldProtStorage} (h : Replayable ps s e) (e' : OldProtStorage) :
    Replayable ps ((entryWrite ps e').apply s) e := by
  obtain ⟨hb, hp, hm⟩ := h
  exact ⟨hb, hp, fun q hq => isSome_apply e' (hm q hq)⟩

/-- Entries whose operation writes them are written in order. -/
theorem drain_eq_replay {f : Attempt OldProtStorage Failure PageMap}
    {I : OldProtStorage → PageMap → Prop}
    (hstep : ∀ e s, I e s → f e s = (none, (entryWrite ps e).apply s))
    (hkeep : ∀ e e' s, I e s → I e' s → I e ((entryWrite ps e').apply s))
    (xs : List OldProtStorage) (hxs : ∀ e ∈ xs, I e s) :
    drain f xs s = (none, [], replay (xs.map (entryWrite ps)) s) := by
  rw [drain_of_sound (g := fun e s => (entryWrite ps e).apply s) hstep hkeep xs s hxs, replay,
    List.foldl_map]

/-- One replayed entry. -/
theorem Replayable.attempt_eq (h : MprotectSpec ps os) {e : OldProtStorage}
    (he : Replayable ps s e) : os.attempt e s = (none, (entryWrite ps e).apply s) := by
  rw [Posix.attempt]
  by_cases hne : e.beginAddr = e.endAddr
  · rw [if_pos hne, Write.apply]
    show _ = (none, put (pagesMeeting ps.bytes e.beginAddr.toNat e.endAddr.toNat) _ s)
    rw [hne, pagesMeeting_empty (Nat.le_refl _), put_empty]
  · rw [if_neg hne, h.mprotect_ok hne he.bounds he.rwx he.mapped]
    rfl

theorem drain_replayable (h : MprotectSpec ps os) (xs : List OldProtStorage)
    (hxs : ∀ e ∈ xs, Replayable ps s e) :
    drain os.attempt xs s = (none, [], replay (xs.map (entryWrite ps)) s) :=
  drain_eq_replay (I := fun e s => Replayable ps s e) (fun _ _ he => he.attempt_eq h)
    (fun _ e' _ he _ => he.after e') xs hxs

/-- **The destructor** replays from the front. -/
theorem destroy_run (h : MprotectSpec ps os) {g : ProtectionGuard}
    (hg : ∀ e ∈ g.old, Replayable ps s e) :
    (g.destroy os.platform).run s = (.ok (), replay (g.old.map (entryWrite ps)) s) :=
  os.platform_calls.destroy_of_drain (drain_replayable h g.old hg)

/-- **`restore()`** replays from the back and empties the guard. -/
theorem restore_run (h : MprotectSpec ps os) (old : List OldProtStorage)
    (hold : ∀ e ∈ old, Replayable ps s e) :
    ProtectionGuard.restore os.platform ⟨old⟩ s
      = ((.ok (), ⟨[]⟩), replay (old.map (entryWrite ps)).reverse s) := by
  have hdrain := drain_replayable h old.reverse (fun e he => hold e (List.mem_reverse.mp he))
  rw [List.map_reverse] at hdrain
  exact os.platform_calls.restore_of_drain hdrain

/-- **`restore(ec)`** with a clear `ec` does the same. -/
theorem restoreEc_run (h : MprotectSpec ps os) (old : List OldProtStorage)
    (hold : ∀ e ∈ old, Replayable ps s e) {ec : ErrorCode} (hec : ec.isSet = false) :
    ProtectionGuard.restoreEc os.platform ⟨old⟩ ec s
      = ((.ok ec, ⟨[]⟩), replay (old.map (entryWrite ps)).reverse s) := by
  have hdrain := drain_replayable h old.reverse (fun e he => hold e (List.mem_reverse.mp he))
  rw [List.map_reverse] at hdrain
  exact os.platform_calls.restoreEc_of_drain hec hdrain

end VmUtils
