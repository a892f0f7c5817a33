import VmUtils.GuardProgram

/-! # What queries answer behind `protect`

    On Windows and macOS a query answers for the page of its address.  On Linux it
    answers for the page of the byte in front of the address if that one is mapped
    (`frontPage`), since the end of a line is taken for one of its bytes.  Behind
    any calls of `protect` the answer is the protection that the last call on that
    page has set (`protects_query`), and so `query` does not report what `protect`
    set exactly if the page in front of its range is mapped with another protection
    (`protect_query_iff`). -/

namespace VmUtils

open Overlay Pages RetryStack

variable {ps : PageSize} {A : Set Nat} {V : NativeProtection → Prop} {s s' : PageMap}
  {os : GuardOs} {first last : BitVec 64}

/-! ## The page of an answer -/

/-- The page of the byte in front of an address if that page is mapped, and the
    page of the address otherwise. -/
def frontPage (ps : PageSize) (s : PageMap) (a : BitVec 64) : Nat :=
  if 0 < a.toNat ∧ (s ((a.toNat - 1) / ps.bytes)).isSome then (a.toNat - 1) / ps.bytes
  else a.toNat / ps.bytes

/-- The bytes of a mapped page are those of a line. -/
theorem Describes.exists_contains {L : Listing} (hd : Describes ps L s) {x : Nat}
    (hx : (s (x / ps.bytes)).isSome) :
    ∃ l ∈ L.lines, l.beginAddr.toNat ≤ x ∧ x < l.endAddr.toNat
      ∧ s (x / ps.bytes) = some l.protection.native := by
  obtain ⟨l, hl, hp⟩ := hd.listed _ hx
  obtain ⟨h1, h2⟩ := (hasPage_div_iff (hd.aligned.begin_dvd l hl) (hd.aligned.end_dvd l hl) x).mp hp
  exact ⟨l, hl, h1, h2, hd.mapped l hl _ hp⟩

/-- **A Linux query of a mapped address** answers with the protection of the page
    in front of it, if that is another one and mapped. -/
theorem queryLocal_protection {L : Listing} {proc : Process} (u : Uninit)
    (hd : Describes ps L s) (hopen : proc.openFile (mapsPath proc.getpid) = some L.text)
    {a : BitVec 64} (hm : (s (a.toNat / ps.bytes)).isSome) :
    ∃ r, queryLocal 64 proc u a = .ok r ∧ s (frontPage ps s a) = some r.protection.native := by
  obtain ⟨l, hl, h1, h2, hpage⟩ := hd.exists_contains hm
  have hc : l.Contains a := ⟨h1, h2⟩
  obtain ⟨h, hh, hscan, hwhich⟩ := scanRegion_mapped hl hc
  refine ⟨_, queryLocal_listing hopen hl hc, ?_⟩
  have hprot : (scanRegion a 0 L.lines).protection.native = h.protection.native := by
    rw [hscan, ← transformProt_eq (L.kernelPerms h hh)]
    rfl
  rw [hprot]
  rcases hwhich with ⟨rfl, hne⟩ | hend
  · -- no line ends here, so the line of the byte in front is the same one
    rw [frontPage]
    split
    · next hfront =>
        obtain ⟨m, hmem, h3, h4, hpage'⟩ := hd.exists_contains hfront.2
        have hnot : m.endAddr.toNat ≠ a.toNat := fun heq => hne m hmem (BitVec.eq_of_toNat_eq heq)
        have hmc : m.Contains a := by
          constructor
          · show m.beginAddr.toNat ≤ a.toNat
            omega
          · show a.toNat < m.endAddr.toNat
            omega
        rw [hpage', L.ascending.eq_of_contains hmem hl hmc hc]
    · exact hpage
  · -- the line that ends here contains the byte in front
    have hlt : h.beginAddr.toNat < h.endAddr.toNat := L.begin_lt_end h hh
    rw [hend] at hlt
    have hbyte : h.HasPage ps ((a.toNat - 1) / ps.bytes) := by
      refine (hasPage_div_iff (hd.aligned.begin_dvd h hh) (hd.aligned.end_dvd h hh) _).mpr ?_
      rw [hend]
      omega
    have hfront := hd.mapped h hh _ hbyte
    rw [frontPage, if_pos ⟨by omega, by rw [hfront]; rfl⟩, hfront]

/-- The queries of a system that describe the state `s`, and the page they answer for. -/
inductive Reads (ps : PageSize) (s : PageMap) :
    GuardOs → (BitVec 64 → Except Exn (BasicRegion 64)) → (BitVec 64 → Nat) → Prop
  | linux (os : Posix PageMap) (proc : Process) (u : Uninit) (L : Listing)
      (hd : Describes ps L s) (hopen : proc.openFile (mapsPath proc.getpid) = some L.text) :
      Reads ps s (.linux os) (fun a => queryLocal 64 proc u a) (frontPage ps s)
  | repeating (sys : GuardSystem) (hd : sys.Describes ps s) :
      Reads ps s sys.os (fun a => sys.query a) (fun a => a.toNat / ps.bytes)

/-- A query of a mapped address answers with the protection of its page. -/
theorem Reads.answers {query : BitVec 64 → Except Exn (BasicRegion 64)} {page : BitVec 64 → Nat}
    (h : Reads ps s os query page) {a : BitVec 64} (hm : (s (a.toNat / ps.bytes)).isSome) :
    ∃ r, query a = .ok r ∧ s (page a) = some r.protection.native := by
  cases h with
  | linux os proc u L hd hopen => exact queryLocal_protection u hd hopen hm
  | repeating sys hd =>
      obtain ⟨r, hr, hans⟩ := hd.query_eq hm
      exact ⟨r, hr, hans.holdsIn _ hans.page.1 hans.page.2⟩

/-! ## Calls of `protect` -/

/-- The arguments of `protect(begin, end, prot)`. -/
structure ProtectCall where
  first : BitVec 64
  last : BitVec 64
  prot : Protection

/-- What the call writes. -/
def ProtectCall.write (ps : PageSize) (c : ProtectCall) : Write Nat (Option NativeProtection) where
  cells := rangePages ps c.first c.last
  value := some c.prot.native

/-- Calls one after the other. -/
def protectAll (P : Platform PageMap) (calls : List ProtectCall) : OsM PageMap Unit :=
  calls.forM (fun c => P.protect c.first c.last c.prot)

theorem GuardOs.Conforms.setsPages (h : os.Conforms ps A V) : SetsPages ps A V os.attempt := by
  cases os with
  | linux os => exact h.1.sets.setsPages h.1.rwx
  | osx os => exact h.1.sets.setsPages h.1.rwx
  | windows os => exact h.1.sets.setsPages h.1.accepts

/-- **Calls that return are writes**, on mapped ranges. -/
theorem protectAll_replay (hos : os.Conforms ps A V) (calls : List ProtectCall)
    (hcalls : ∀ c ∈ calls, c.first ≤ c.last ∧ RangeMapped ps s c.first c.last)
    (hrun : (protectAll os.platform calls).run s = (.ok (), s')) :
    s' = replay (calls.map (ProtectCall.write ps)) s := by
  induction calls generalizing s with
  | nil => exact (Prod.mk.inj hrun).2.symm
  | cons c calls ih =>
      obtain ⟨⟨⟩, s₁, hfirst, hrest⟩ := bind_run_eq_ok (show (os.platform.protect c.first c.last
        c.prot >>= fun _ => protectAll os.platform calls).run s = (.ok (), s') from hrun)
      obtain ⟨hle, hm⟩ := hcalls c (List.mem_cons_self ..)
      have hs₁ := hos.setsPages.protect_sets hos.attempts hle hm hfirst
      rw [List.map_cons, replay_cons]
      show s' = replay (calls.map (ProtectCall.write ps))
        (setProt (rangePages ps c.first c.last) c.prot.native s)
      rw [← hs₁]
      refine ih ?_ hrest
      intro c' hc'
      obtain ⟨hle', hm'⟩ := hcalls c' (List.mem_cons_of_mem _ hc')
      refine ⟨hle', ?_⟩
      intro q hq
      rw [hs₁, setProt_isSome hm]
      exact hm' q hq

/-- **Queries behind calls of `protect`** answer with the protection of the last
    call that meets the page they answer for, and with the old one if there is none. -/
theorem protects_query (ps : PageSize) (A : Set Nat) (V : NativeProtection → Prop) (os : GuardOs)
    (s s' : PageMap) (calls : List ProtectCall) (query : BitVec 64 → Except Exn (BasicRegion 64))
    (page : BitVec 64 → Nat) (a : BitVec 64) (hos : os.Conforms ps A V)
    (hcalls : ∀ c ∈ calls, c.first ≤ c.last ∧ RangeMapped ps s c.first c.last)
    (hrun : (protectAll os.platform calls).run s = (.ok (), s'))
    (hreads : Reads ps s' os query page) (hm : (s' (a.toNat / ps.bytes)).isSome) :
    ∃ r, query a = .ok r ∧ some r.protection.native
      = ((touching (page a) (calls.map (ProtectCall.write ps))).getLast?.map Write.value).getD
        (s (page a)) := by
  obtain ⟨r, hr, hprot⟩ := hreads.answers hm
  refine ⟨r, hr, ?_⟩
  rw [← hprot, ← replay_apply, ← protectAll_replay hos calls hcalls hrun]

/-- A call on the second page of the sample, on macOS. -/
theorem protects_query_sample :
    ∃ s' r, (protectAll (walkingPosix samplePageSize).platform [⟨0x3000, 0x4000, ⟨1⟩⟩]).run
        sampleGuardState = (.ok (), s')
      ∧ (GuardSystem.osx (walkingPosix samplePageSize) (pagewiseMach s')).query (0x3010 : BitVec 64)
        = .ok r ∧ some r.protection.native = some 1 := by
  have hos : (GuardOs.osx (walkingPosix samplePageSize)).Conforms samplePageSize Set.univ
      (fun prot => prot < 8) := walkingPosix_conforms samplePageSize Set.univ
  have hpages : rangePages samplePageSize 0x3000 0x4000 = Set.Icc 3 3 :=
    rangePages_eq_Icc (by decide)
  have hpage : (3 : Nat) ∈ rangePages samplePageSize 0x3000 0x4000 := by
    rw [hpages]
    exact ⟨Nat.le_refl 3, Nat.le_refl 3⟩
  have hm : RangeMapped samplePageSize sampleGuardState 0x3000 0x4000 := by
    intro q hq
    rw [hpages] at hq
    obtain rfl : q = 3 := Nat.le_antisymm hq.2 hq.1
    rfl
  have hset := hos.setsPages.protect_ok hos.attempts (show (0x3000 : BitVec 64) ≤ 0x4000 by decide)
    (show (fun prot : NativeProtection => prot < 8) (⟨1⟩ : Protection).native by decide)
    (fun q hq => ⟨Set.mem_univ q, hm q hq⟩)
  have hrun := bind_run_ok hset (fun _ => (pure () : OsM PageMap Unit))
  have hbelow : ∀ q,
      (setProt (rangePages samplePageSize 0x3000 0x4000) 1 sampleGuardState q).isSome →
        q + 1 < 2 ^ 52 := by
    intro q hq
    rw [setProt_isSome hm] at hq
    exact sampleGuardState_below q hq
  have hreads := Reads.repeating _ (pagewiseMach_describes (walkingPosix samplePageSize) hbelow)
  have hthere : (setProt (rangePages samplePageSize 0x3000 0x4000) 1 sampleGuardState
      ((0x3010 : BitVec 64).toNat / samplePageSize.bytes)).isSome := by
    rw [setProt_isSome hm]
    rfl
  obtain ⟨r, hr, hprot⟩ := protects_query samplePageSize Set.univ (fun prot => prot < 8) _
    sampleGuardState _ [⟨0x3000, 0x4000, ⟨1⟩⟩] _ _ 0x3010 hos
    (fun c hc => by
      obtain rfl := List.mem_singleton.mp hc
      exact ⟨by decide, hm⟩) hrun hreads hthere
  have htouch : touching 3 [ProtectCall.write samplePageSize ⟨0x3000, 0x4000, ⟨1⟩⟩]
      = [ProtectCall.write samplePageSize ⟨0x3000, 0x4000, ⟨1⟩⟩] := touching_cons_of_mem hpage []
  exact ⟨_, r, hrun, hr, hprot.trans (congrArg
    (fun ws => (ws.getLast?.map Write.value).getD (some 2)) htouch)⟩

/-! ## The seam in front of a range -/

/-- The page in front of an address of a range is one of the range or the one in
    front of it. -/
theorem frontPage_of_mem (hlt : first < last) {a : BitVec 64}
    (ha : a.toNat / ps.bytes ∈ rangePages ps first last) :
    frontPage ps s a ∈ rangePages ps first last
      ∨ (0 < first.toNat / ps.bytes ∧ frontPage ps s a = first.toNat / ps.bytes - 1) := by
  have hpos := ps.pos_bytes
  by_cases hmem : frontPage ps s a ∈ rangePages ps first last
  · exact Or.inl hmem
  · refine Or.inr ?_
    rw [frontPage] at hmem ⊢
    split at hmem
    · next hfront =>
        rw [if_pos hfront]
        rw [rangePages_eq_Icc hlt] at ha hmem
        have hstep : a.toNat / ps.bytes ≤ (a.toNat - 1) / ps.bytes + 1 := by
          rw [← Nat.add_div_right _ hpos]
          exact Nat.div_le_div_right (by omega)
        have hless : (a.toNat - 1) / ps.bytes ≤ a.toNat / ps.bytes :=
          Nat.div_le_div_right (Nat.sub_le ..)
        have hout : ¬ first.toNat / ps.bytes ≤ (a.toNat - 1) / ps.bytes :=
          fun hge => hmem ⟨hge, hless.trans ha.2⟩
        have hge := ha.1
        have hzero : 0 < first.toNat / ps.bytes := Nat.zero_lt_of_lt (Nat.lt_of_not_le hout)
        exact ⟨hzero, by omega⟩
    · exact absurd ha hmem

/-- The first byte of the first page, and the byte in front of it. -/
theorem fixedAddress_pages {os : Posix PageMap} (hos : MprotectSpec ps os) (first : BitVec 64)
    (hq : 0 < first.toNat / ps.bytes) :
    0 < (fixedAddress os first).toNat
      ∧ (fixedAddress os first).toNat / ps.bytes = first.toNat / ps.bytes
      ∧ ((fixedAddress os first).toNat - 1) / ps.bytes = first.toNat / ps.bytes - 1 := by
  have hpos := ps.pos_bytes
  have hround : (fixedAddress os first).toNat = first.toNat / ps.bytes * ps.bytes :=
    roundDown_toNat hos.pageSize_eq first
  have hzero := Nat.mul_pos hq hpos
  rw [hround]
  refine ⟨hzero, Nat.mul_div_cancel _ hpos, ?_⟩
  have hsucc : first.toNat / ps.bytes * ps.bytes - 1 + 1 = first.toNat / ps.bytes * ps.bytes :=
    Nat.sub_add_cancel hzero
  have hdvd : ps.bytes ∣ first.toNat / ps.bytes * ps.bytes - 1 + 1 := by
    rw [hsucc]
    exact Nat.dvd_mul_left ..
  have hdiv := Nat.succ_div_of_dvd hdvd
  rw [hsucc, Nat.mul_div_cancel _ hpos] at hdiv
  omega

/-- **`query` on Linux reports what `protect` set**, for every byte of the pages it
    set, exactly if the page in front of them is not mapped with another protection. -/
theorem protect_query_iff (ps : PageSize) (os : Posix PageMap) (proc : Process) (u : Uninit)
    (L : Listing) (s s' : PageMap) (first last : BitVec 64) (new : Protection)
    (hos : MprotectSpec ps os) (hlt : first < last) (hm : RangeMapped ps s first last)
    (hrun : (os.protect first last new).run s = (.ok (), s')) (hd : Describes ps L s')
    (hopen : proc.openFile (mapsPath proc.getpid) = some L.text) :
    (∀ a : BitVec 64, a.toNat / ps.bytes ∈ rangePages ps first last →
        ∃ r, queryLocal 64 proc u a = .ok r ∧ r.protection = new)
      ↔ ∀ prot, 0 < first.toNat / ps.bytes → s (first.toNat / ps.bytes - 1) = some prot →
        prot = new.native := by
  have hs' : s' = setProt (rangePages ps first last) new.native s :=
    hos.protect_sets (Or.inl (Nat.le_of_lt hlt)) hm hrun
  have hin : ∀ q ∈ rangePages ps first last, s' q = some new.native := by
    intro q hq
    rw [hs', setProt, put_mem hq]
  have hfront : 0 < first.toNat / ps.bytes →
      s' (first.toNat / ps.bytes - 1) = s (first.toNat / ps.bytes - 1) := by
    intro hq
    rw [hs', setProt, put_not_mem]
    rw [rangePages_eq_Icc hlt]
    rintro ⟨hge, -⟩
    omega
  constructor
  · intro hall prot hq hprot
    -- the first byte of the pages that have been set
    obtain ⟨hzero, hpage, hback⟩ := fixedAddress_pages hos first hq
    have hfirst : (fixedAddress os first).toNat / ps.bytes ∈ rangePages ps first last := by
      have hlt' : first.toNat < last.toNat := hlt
      rw [hpage, rangePages_eq_Icc hlt]
      exact ⟨Nat.le_refl _, Nat.div_le_div_right (by omega)⟩
    obtain ⟨r, hr, hnew⟩ := hall _ hfirst
    have hsome : (s' ((fixedAddress os first).toNat / ps.bytes)).isSome := by
      rw [hin _ hfirst]
      rfl
    obtain ⟨r', hr', hans⟩ := queryLocal_protection u hd hopen hsome
    obtain rfl := Except.ok.inj (hr.symm.trans hr')
    rw [frontPage, hback, hfront hq, hprot, if_pos ⟨hzero, rfl⟩, hfront hq, hprot, hnew] at hans
    exact Option.some.inj hans
  · intro hsame a ha
    have hsome : (s' (a.toNat / ps.bytes)).isSome := by
      rw [hin _ ha]
      rfl
    obtain ⟨r, hr, hans⟩ := queryLocal_protection u hd hopen hsome
    refine ⟨r, hr, congrArg Protection.mk ?_⟩
    rcases frontPage_of_mem (s := s') hlt ha with hmem | ⟨hq, hpred⟩
    · rw [hin _ hmem] at hans
      exact (Option.some.inj hans).symm
    · rw [hpred, hfront hq] at hans
      exact hsame _ hq hans

/-- A protection that the pages already have changes nothing. -/
theorem setProt_self {S : Set Nat} {prot : NativeProtection} (h : ∀ q ∈ S, s q = some prot) :
    setProt S prot s = s := by
  ext q : 1
  by_cases hq : q ∈ S
  · rw [setProt, put_mem hq, h q hq]
  · rw [setProt, put_not_mem hq]

/-- The second mapping of the sample: its first byte is reported with the
    protection of the first mapping. -/
theorem protect_query_iff_sample :
    ¬ ∀ a : BitVec 64, a.toNat / samplePageSize.bytes ∈ rangePages samplePageSize 0x2000 0x4000 →
      ∃ r, queryLocal 64 sampleProcess sampleUninit a = .ok r ∧ r.protection = ⟨3⟩ := by
  have hos := walkingPosix_spec samplePageSize
  have hm : RangeMapped samplePageSize sampleState 0x2000 0x4000 :=
    sampleRange_mapped (by decide) (by decide)
  have hsame : setProt (rangePages samplePageSize 0x2000 0x4000) 3 sampleState = sampleState := by
    refine setProt_self ?_
    intro q hq
    rw [rangePages_eq_Icc (by decide)] at hq
    obtain rfl | rfl : q = 2 ∨ q = 3 := by
      have h1 : 2 ≤ q := hq.1
      have h2 : q ≤ 3 := hq.2
      omega
    · rfl
    · rfl
  have hrun : ((walkingPosix samplePageSize).protect (0x2000 : BitVec 64) 0x4000 ⟨3⟩).run
      sampleState = (.ok (), setProt (rangePages samplePageSize 0x2000 0x4000) 3 sampleState) :=
    hos.protect_ok (Or.inl (by decide)) (by decide) hm
  rw [hsame] at hrun
  intro hall
  have hfront := (protect_query_iff samplePageSize (walkingPosix samplePageSize) sampleProcess
    sampleUninit sampleListing sampleState sampleState 0x2000 0x4000 ⟨3⟩ hos (by decide) hm hrun
    sampleState_described rfl).mp hall 1 (by decide) rfl
  exact absurd hfront (by decide)

end VmUtils
