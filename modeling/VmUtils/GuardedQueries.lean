import VmUtils.ProtectQuery

/-! # Queries beside guards

    What a query answers during a program with guards.  No step of the program maps
    or unmaps a page, so a query answers for the same page all along
    (`Reads.page_congr`); and where that page has not escaped and no open guard
    covers it, the answer has the protection it had at the beginning
    (`guardProgram_query`). -/

namespace VmUtils

open Overlay

variable {ps : PageSize} {V : NativeProtection → Prop} {alloc : Nat → Nat} {s s' : PageMap}
  {os : GuardOs}

/-! ## The mapped pages -/

/-- A step of the program maps and unmaps nothing. -/
theorem guardProgram_sameMapped (hos : ∀ k, os.Conforms ps {q | alloc q = k} V)
    {c c' : List OpenGuard × PageMap} {E : Set Nat} (h : GuardProgram ps alloc V os c E c')
    {fs : List (Scope Nat (Option NativeProtection))} (hfs : GuardsAct os c fs) :
    SameMapped c'.2 c.2 := by
  cases h with
  | construct gs s s' ctor S W g hopens hrun => exact (hopens.spec hos hrun).1.mapped
  | throws gs s s' ctor ex hcall hrun => exact hcall.throws_sameMapped (hos 0) hrun
  | protect gs s first last prot => exact (hos 0).protect_sameMapped rfl
  | protectEc gs s first last prot ec => exact (hos 0).protectEc_sameMapped first last prot ec s
  | release gs o gs' s => exact fun _ => rfl
  | destroy o gs s =>
      cases hfs with
      | @cons _ f _ fs hact hrest =>
          obtain ⟨t, hrun, hmapped, -⟩ := hact.destroy s (fun _ => rfl)
          rw [hrun]
          exact hmapped

/-- Nor does a run. -/
theorem guardProgramRun_sameMapped (hos : ∀ k, os.Conforms ps {q | alloc q = k} V)
    {c : List OpenGuard × PageMap} {E : Set Nat}
    (h : GuardProgramRun ps alloc V os ([], s) E c) : SameMapped c.2 s := by
  induction h with
  | refl => exact fun _ => rfl
  | tail hrun hstep ih =>
      obtain ⟨fs, -, hfs⟩ := guardProgramRun_refines hos hrun
      exact (guardProgram_sameMapped hos hstep hfs).trans ih

/-! ## The queries -/

/-- The page that a query answers for, on each system. -/
theorem Reads.page_eq {query : BitVec 64 → Except Exn (BasicRegion 64)} {page : BitVec 64 → Nat}
    (h : Reads ps s os query page) (a : BitVec 64) :
    page a = match os with
      | .linux _ => frontPage ps s a
      | _ => a.toNat / ps.bytes := by
  cases h with
  | linux os proc u L hd hopen => rfl
  | repeating sys hd =>
      cases sys with
      | windows os memory => rfl
      | osx os memory => rfl

/-- It depends on which pages are mapped, and not on their protections. -/
theorem Reads.page_congr {query query' : BitVec 64 → Except Exn (BasicRegion 64)}
    {page page' : BitVec 64 → Nat} (h : Reads ps s os query page)
    (h' : Reads ps s' os query' page') (hs : SameMapped s' s) (a : BitVec 64) :
    page' a = page a := by
  rw [h.page_eq, h'.page_eq]
  cases os with
  | linux os =>
      show frontPage ps s' a = frontPage ps s a
      rw [frontPage, frontPage, hs]
  | windows os => rfl
  | osx os => rfl

/-- **Queries during a program with guards**: at any time of a run, a query of a
    mapped address answers with the protection it had at the beginning, if its page
    has not escaped and no open guard covers it. -/
theorem guardProgram_query (ps : PageSize) (alloc : Nat → Nat) (V : NativeProtection → Prop)
    (os : GuardOs) (s s' : PageMap) (gs : List OpenGuard) (E : Set Nat)
    (query query' : BitVec 64 → Except Exn (BasicRegion 64)) (page page' : BitVec 64 → Nat)
    (a : BitVec 64) (hos : ∀ k, os.Conforms ps {q | alloc q = k} V)
    (hrun : GuardProgramRun ps alloc V os ([], s) E (gs, s')) (hreads : Reads ps s os query page)
    (hreads' : Reads ps s' os query' page') (hm : (s (a.toNat / ps.bytes)).isSome)
    (hescape : page a ∉ E) (hopen : page a ∉ guarded gs) :
    ∃ r r', query a = .ok r ∧ query' a = .ok r' ∧ r'.protection = r.protection := by
  have hmapped : SameMapped s' s := guardProgramRun_sameMapped hos hrun
  obtain ⟨fs, hescapes, hfs⟩ := guardProgramRun_refines hos hrun
  have hkept : s' (page a) = s (page a) := by
    refine escapeRun_uncovered hescapes hescape ?_
    rw [hfs.covered_eq]
    exact hopen
  obtain ⟨r, hr, hprot⟩ := hreads.answers hm
  obtain ⟨r', hr', hprot'⟩ := hreads'.answers (by rw [hmapped]; exact hm)
  rw [hreads.page_congr hreads' hmapped, hkept, hprot] at hprot'
  exact ⟨r, r', hr, hr', congrArg Protection.mk (Option.some.inj hprot').symm⟩

/-- A guard of the first page of the sample on macOS, and a query of that page
    behind its destructor. -/
theorem guardProgram_query_sample :
    ∃ g t, (ProtectionGuard.ofPage (walkingOsxSystem sampleGuardState).platform
        (Queries.repeating (walkingOsxSystem sampleGuardState).query (.ok []))
        (0x2ff0 : BitVec 64) ⟨1⟩).run sampleGuardState = (.ok g, t)
      ∧ ∃ r r', (walkingOsxSystem sampleGuardState).query (0x2010 : BitVec 64) = .ok r
        ∧ (walkingOsxSystem ((g.destroy (walkingPosix samplePageSize).platform).run t).2).query
          (0x2010 : BitVec 64) = .ok r'
        ∧ r'.protection = r.protection := by
  have hd := pagewiseMach_describes (walkingPosix samplePageSize) sampleGuardState_below
  have hos : ∀ k, (GuardOs.osx (walkingPosix samplePageSize)).Conforms samplePageSize
      {q | (fun _ => 0) q = k} IsAccess :=
    fun k => walkingPosix_conforms samplePageSize {q | (fun _ => 0) q = k}
  obtain ⟨g, hctor⟩ := ofPageRepeating_returns (.ok []) 0x2ff0 ⟨1⟩
    (walkingOsxSystem_conforms sampleGuardState) hd (Set.mem_univ _) rfl (by decide)
  have hopens : Opens samplePageSize (fun _ => 0) IsAccess sampleGuardState
      (.osx (walkingPosix samplePageSize)) _ _ _ :=
    Opens.page (walkingOsxSystem sampleGuardState) (.ok []) 0x2ff0 ⟨1⟩ hd sampleGuardState_access
      rfl trivial
  have hrun := (GuardProgramRun.refl.tail
    (GuardProgram.construct [] sampleGuardState _ _ _ _ g hopens hctor)).tail
      (GuardProgram.destroy _ _ _)
  have hmapped := guardProgramRun_sameMapped hos hrun
  have hd' := pagewiseMach_describes (walkingPosix samplePageSize) (fun q hq =>
    sampleGuardState_below q (by rw [← hmapped q]; exact hq))
  refine ⟨g, _, hctor, ?_⟩
  refine guardProgram_query samplePageSize (fun _ => 0) IsAccess
    (.osx (walkingPosix samplePageSize)) sampleGuardState _ [] _ _ _ _ _ 0x2010 hos hrun
    (Reads.repeating _ hd) (Reads.repeating _ hd') rfl ?_ ?_
  · rintro ((hempty | hempty) | ⟨hempty, -⟩)
    · exact hempty
    · exact hempty
    · exact hempty
  · rintro ⟨o, ho, -⟩
    cases ho

end VmUtils
