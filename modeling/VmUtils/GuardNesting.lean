import VmUtils.GuardRestoration

/-! # Nested range guards

    A program that constructs range guards and destroys the innermost one is a
    program with scopes: a guard is the scope of the pages that meet its range
    (`guardStep_refines`).  Guards destroyed in reverse order of construction
    therefore leave every page as it was (`nestedGuards_restore`), although
    single entries write wrong protections on the way. -/

namespace VmUtils

open Overlay Pages Relation

/-- A step of a program with range guards; the innermost guard is the head of
    the list.  A constructor reads a listing of the state at that moment. -/
inductive GuardStep (ps : PageSize) (os : Posix PageMap) :
    List ProtectionGuard × PageMap → List ProtectionGuard × PageMap → Prop
  | construct (gs : List ProtectionGuard) (s s' : PageMap) (proc : Process) (u : Uninit)
      (L : Listing) (first last : BitVec 64) (new : Protection) (g : ProtectionGuard)
      (hd : Describes ps L s) (hopen : proc.openFile (mapsPath proc.getpid) = some L.text)
      (hle : first ≤ last) (hm : RangeMapped ps s first last)
      (hctor : (ProtectionGuard.ofRange os.platform (linuxQueries proc u) first last new).run s
        = (.ok g, s')) : GuardStep ps os (gs, s) (g :: gs, s')
  | destroy (g : ProtectionGuard) (gs : List ProtectionGuard) (s : PageMap) :
      GuardStep ps os (g :: gs, s) (gs, ((g.destroy os.platform).run s).2)

/-- The same pages are mapped. -/
def SameMapped (s t : PageMap) : Prop := ∀ q, (s q).isSome = (t q).isSome

theorem SameMapped.put {s t v : PageMap} (S : Set Nat) (hv : SameMapped v s)
    (ht : SameMapped t s) : SameMapped (put S v t) s := by
  intro q
  by_cases hq : q ∈ S
  · rw [put_mem hq, hv q]
  · rw [put_not_mem hq, ht q]

/-- The guard acts as the scope: on every state with the pages of `s` mapped its
    destructor returns and puts the saved state back on the cells. -/
structure ActsAs (os : Posix PageMap) (s : PageMap) (g : ProtectionGuard)
    (f : Scope Nat (Option NativeProtection)) : Prop where
  saved : SameMapped f.saved s
  destroy : ∀ t, SameMapped t s →
    (g.destroy os.platform).run t = (.ok (), put f.cells f.saved t)

theorem ActsAs.congr {os : Posix PageMap} {s s' : PageMap} {g : ProtectionGuard}
    {f : Scope Nat (Option NativeProtection)} (h : ActsAs os s g f) (hs : SameMapped s' s) :
    ActsAs os s' g f := by
  obtain ⟨hsaved, hdestroy⟩ := h
  refine ⟨?_, ?_⟩
  · intro q
    rw [hsaved q, hs q]
  · intro t ht
    refine hdestroy t ?_
    intro q
    rw [ht q, hs q]

/-- A constructed guard acts as the scope of its pages. -/
theorem ofRange_actsAs {ps : PageSize} {os : Posix PageMap} {L : Listing} {s : PageMap}
    {first last : BitVec 64} (hos : MprotectSpec ps os) (hd : Describes ps L s)
    (hle : first ≤ last) (hm : RangeMapped ps s first last) :
    ActsAs os s ⟨rangeEntries L first last⟩ ⟨rangePages ps first last, s⟩ := by
  refine ⟨fun _ => rfl, ?_⟩
  intro t ht
  have hreplay : ∀ e ∈ (ProtectionGuard.mk (rangeEntries L first last)).old, Replayable ps t e :=
    rangeEntries_replayable_after hd hm hle ht
  rw [destroy_run hos hreplay, replay_rangeEntries hd hm t]

/-- **A step of the guards is a step of the scopes.** -/
theorem guardStep_refines {ps : PageSize} {os : Posix PageMap} (hos : MprotectSpec ps os)
    {c c' : List ProtectionGuard × PageMap} (h : GuardStep ps os c c')
    {fs : List (Scope Nat (Option NativeProtection))}
    (hfs : List.Forall₂ (ActsAs os c.2) c.1 fs) :
    ∃ fs', Move (fs, c.2) (fs', c'.2) ∧ List.Forall₂ (ActsAs os c'.2) c'.1 fs' := by
  cases h with
  | construct gs s s' proc u L first last new g hd hopen hle hm hctor =>
      have hs' := ofRange_state hos hopen hle hm hctor
      -- the open guards only need to know which pages are mapped
      have hmapped : SameMapped s' s := by
        rw [hs']
        exact setProt_isSome hm new.native
      obtain ⟨rfl, -⟩ := ofRange_eq_ok hopen hctor
      refine ⟨⟨rangePages ps first last, s⟩ :: fs, Move.enter fs s _ s' ?_, ?_⟩
      · intro q hq
        rw [hs']
        exact put_not_mem hq _ _
      · refine List.Forall₂.cons ((ofRange_actsAs hos hd hle hm).congr hmapped) ?_
        exact hfs.imp fun _ _ hact => hact.congr hmapped
  | destroy g gs s =>
      cases hfs with
      | cons hact hrest =>
          rename_i f fs
          have hrun := hact.destroy s (fun _ => rfl)
          have hmapped : SameMapped (put f.cells f.saved s) s :=
            SameMapped.put f.cells hact.saved (fun _ => rfl)
          refine ⟨fs, ?_, ?_⟩
          · rw [hrun]
            exact Move.leave f fs s
          · rw [hrun]
            exact hrest.imp fun _ _ h => h.congr hmapped

/-- A run of the guards is a run of the scopes. -/
theorem guardRun_refines {ps : PageSize} {os : Posix PageMap} (hos : MprotectSpec ps os)
    {s : PageMap} {c : List ProtectionGuard × PageMap}
    (h : ReflTransGen (GuardStep ps os) ([], s) c) :
    ∃ fs, ReflTransGen Move ([], s) (fs, c.2) ∧ List.Forall₂ (ActsAs os c.2) c.1 fs := by
  induction h with
  | refl => exact ⟨[], ReflTransGen.refl, List.Forall₂.nil⟩
  | tail _ hstep ih =>
      obtain ⟨fs, hrun, hfs⟩ := ih
      obtain ⟨fs', hmove, hfs'⟩ := guardStep_refines hos hstep hfs
      exact ⟨fs', hrun.tail hmove, hfs'⟩

/-- **Nested guards restore every page**: after any run that has destroyed what
    it constructed, in reverse order, the state is the one it began with. -/
theorem nestedGuards_restore (ps : PageSize) (os : Posix PageMap) (s s' : PageMap)
    (hos : MprotectSpec ps os) (hrun : ReflTransGen (GuardStep ps os) ([], s) ([], s')) :
    s' = s := by
  obtain ⟨fs, hmoves, hfs⟩ := guardRun_refines hos hrun
  cases hfs with
  | nil => exact balanced_run hmoves

/-! ## Two guards that overlap -/

/-- A state with a protection put on the pages of a list. -/
theorem setProt_list {S : Set Nat} {qs : List Nat} (h : ∀ q, q ∈ S ↔ q ∈ qs)
    (prot : NativeProtection) (s : PageMap) :
    setProt S prot s = fun q => if q ∈ qs then some prot else s q := by
  funext q
  by_cases hq : q ∈ qs
  · rw [setProt, put_mem ((h q).mpr hq), if_pos hq]
  · rw [setProt, put_not_mem (fun hS => hq ((h q).mp hS)), if_neg hq]

/-- The sample with its first page made writable, where two mappings are now one. -/
def nestedState : PageMap := fun q => if q ∈ [1] then some 3 else sampleState q

def nestedListing : Listing where
  lines := [.anonymous 0x1000 0x4000 true true false false,
    .anonymous 0x8000 0x9000 true false true false]
  begin_lt_end := by decide
  sorted := by decide
  kernelPerms := by
    intro l hl
    simp only [List.mem_cons, List.not_mem_nil, or_false] at hl
    rcases hl with rfl | rfl
    · exact anonymous_kernelPerms ..
    · exact anonymous_kernelPerms ..

/-- A system on which every listing file holds that listing. -/
def nestedProcess : Process where
  openFile := fun _ => some nestedListing.text
  getpid := 1

theorem nestedState_eq :
    setProt (rangePages samplePageSize 0x1000 0x2000) 3 sampleState = nestedState := by
  refine setProt_list ?_ 3 sampleState
  intro q
  rw [rangePages, mem_pagesMeeting samplePageSize.pos_bytes, List.mem_singleton]
  show 0x1000 < 0x2000 ∧ 0x1000 / 4096 ≤ q ∧ q * 4096 < 0x2000 ↔ q = 1
  omega

theorem nestedState_described : Describes samplePageSize nestedListing nestedState := by
  refine ⟨⟨by decide, by decide⟩, ?_, ?_⟩
  · intro l hl q hq
    have hlines : l = .anonymous 0x1000 0x4000 true true false false
        ∨ l = .anonymous 0x8000 0x9000 true false true false := by
      simpa [nestedListing] using hl
    have hbytes : samplePageSize.bytes = 4096 := rfl
    obtain ⟨h1, h2⟩ := hq
    rw [hbytes] at h1 h2
    rcases hlines with rfl | rfl
    · have h1' : 0x1000 ≤ q * 4096 := h1
      have h2' : q * 4096 < 0x4000 := h2
      obtain rfl | rfl | rfl : q = 1 ∨ q = 2 ∨ q = 3 := by omega
      · rfl
      · rfl
      · rfl
    · have h1' : 0x8000 ≤ q * 4096 := h1
      have h2' : q * 4096 < 0x9000 := h2
      obtain rfl : q = 8 := by omega
      rfl
  · intro q hq
    have hq' : (q = 1 ∨ q = 2 ∨ q = 3) ∨ q = 8 := by
      by_contra hnot
      simp only [not_or] at hnot
      simp [nestedState, sampleState, hnot] at hq
    rcases hq' with (rfl | rfl | rfl) | rfl
    · exact ⟨_, List.mem_cons_self .., by decide⟩
    · exact ⟨_, List.mem_cons_self .., by decide⟩
    · exact ⟨_, List.mem_cons_self .., by decide⟩
    · exact ⟨_, List.mem_cons_of_mem _ (List.mem_cons_self ..), by decide⟩

theorem nestedRange_mapped {first last : BitVec 64} (hfirst : 0x1000 ≤ first)
    (hlast : last ≤ 0x4000) : RangeMapped samplePageSize nestedState first last := by
  intro q hq
  rw [← nestedState_eq, setProt_isSome (sampleRange_mapped (by decide) (by decide))]
  exact sampleRange_mapped hfirst hlast q hq

/-- A guard of the first page, from the listing of the sample. -/
theorem outer_ofRange :
    (ProtectionGuard.ofRange (walkingPosix samplePageSize).platform
        (linuxQueries sampleProcess sampleUninit) (0x1000 : BitVec 64) 0x2000 ⟨3⟩).run sampleState
      = (.ok ⟨rangeEntries sampleListing 0x1000 0x2000⟩, nestedState) := by
  rw [← nestedState_eq]
  exact sample_ofRange (by decide) (by decide) (by decide) (by decide)

/-- A guard of three pages inside it, from the listing of the changed state. -/
theorem inner_ofRange :
    (ProtectionGuard.ofRange (walkingPosix samplePageSize).platform
        (linuxQueries nestedProcess sampleUninit) (0x1000 : BitVec 64) 0x4000 ⟨7⟩).run nestedState
      = (.ok ⟨rangeEntries nestedListing 0x1000 0x4000⟩,
        setProt (rangePages samplePageSize 0x1000 0x4000) 7 nestedState) := by
  refine ofRange_run_ok (walkingPosix_spec _) rfl (by decide)
    (nestedRange_mapped (by decide) (by decide)) ?_ (by decide)
  exact ⟨.anonymous 0x8000 0x9000 true false true false, by simp [nestedListing], by decide⟩

/-- Both guards, destroyed in reverse order. -/
theorem nestedGuards_restore_sample :
    ∃ g g' t, (ProtectionGuard.ofRange (walkingPosix samplePageSize).platform
          (linuxQueries sampleProcess sampleUninit) (0x1000 : BitVec 64) 0x2000 ⟨3⟩).run sampleState
        = (.ok g, nestedState)
      ∧ (ProtectionGuard.ofRange (walkingPosix samplePageSize).platform
          (linuxQueries nestedProcess sampleUninit) (0x1000 : BitVec 64) 0x4000 ⟨7⟩).run nestedState
        = (.ok g', t)
      ∧ ((g.destroy (walkingPosix samplePageSize).platform).run
          ((g'.destroy (walkingPosix samplePageSize).platform).run t).2).2 = sampleState := by
  have houter := GuardStep.construct [] sampleState _ sampleProcess sampleUninit sampleListing
    0x1000 0x2000 ⟨3⟩ _ sampleState_described rfl (by decide)
    (sampleRange_mapped (by decide) (by decide)) outer_ofRange
  have hinner := GuardStep.construct [⟨rangeEntries sampleListing 0x1000 0x2000⟩] nestedState _
    nestedProcess sampleUninit nestedListing 0x1000 0x4000 ⟨7⟩ _ nestedState_described rfl
    (by decide) (nestedRange_mapped (by decide) (by decide)) inner_ofRange
  have hrun := (((ReflTransGen.single houter).tail hinner).tail
    (GuardStep.destroy _ _ _)).tail (GuardStep.destroy _ _ _)
  exact ⟨_, _, _, outer_ofRange, inner_ofRange, nestedGuards_restore samplePageSize
    (walkingPosix samplePageSize) sampleState _ (walkingPosix_spec _) hrun⟩

end VmUtils
