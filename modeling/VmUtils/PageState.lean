import VmUtils.MapsListing
import VmUtils.Protect
import VmUtils.Lib.Overlay
import VmUtils.Lib.Pages

/-! # Page protections

    The state the protection calls act on: the protection of every mapped page
    (`PageMap`).  Under what is assumed of `mprotect` (`MprotectSpec`), `protect` puts
    a protection on exactly the pages that meet its range (`MprotectSpec.protect_ok`).
    A listing describes a state when its lines are the mapped pages with their
    protections. -/

namespace VmUtils

open Overlay Pages

/-- The protection of each page, `none` for a page that is not mapped. -/
abbrev PageMap := Nat → Option NativeProtection

/-- The state with protection `prot` on the pages of `S`. -/
noncomputable def setProt (S : Set Nat) (prot : NativeProtection) (s : PageMap) : PageMap :=
  put S (fun _ => some prot) s

/-- The pages a call with a page-aligned start asks for. -/
def requested (ps : PageSize) (addr len : BitVec 64) : Set Nat :=
  pagesMeeting ps.bytes addr.toNat (addr.toNat + len.toNat)

/-- The state keeps which pages are mapped. -/
theorem setProt_isSome {s : PageMap} {S : Set Nat} (hS : ∀ q ∈ S, (s q).isSome)
    (prot : NativeProtection) (q : Nat) : (setProt S prot s q).isSome = (s q).isSome := by
  by_cases hq : q ∈ S
  · rw [setProt, put_mem hq, hS q hq]
    rfl
  · rw [setProt, put_not_mem hq]

/-! ## What is assumed of `mprotect`

    Four assumptions, for the results that need them: what a success sets, on
    mapped pages (`MprotectSpec`) or on a system with pages of any size
    (`MprotectRounds`), and what any call can change (`MprotectTouches`, or less
    `MprotectFrame`). -/

/-- What is assumed of `mprotect`: on mapped pages a success sets exactly the
    requested pages, and a combination of read, write and execute succeeds. -/
structure MprotectSpec (ps : PageSize) (os : Posix PageMap) : Prop where
  pageSize_eq : os.pageSize = BitVec.twoPow 64 ps.shift
  sets : ∀ addr len prot s s', ps.bytes ∣ addr.toNat →
    (∀ q ∈ requested ps addr len, (s q).isSome) → os.mprotect addr len prot s = (none, s') →
    s' = setProt (requested ps addr len) prot s
  succeeds : ∀ addr len prot s, ps.bytes ∣ addr.toNat →
    (∀ q ∈ requested ps addr len, (s q).isSome) → prot < 8 →
    (os.mprotect addr len prot s).1 = none

/-- What is assumed of a system with pages of `2 ^ k` bytes: a success of
    `mprotect` with a page-aligned address sets exactly the pages from there up to
    the end, rounded up, and a failure sets `errno`. -/
structure MprotectRounds (k : Nat) (os : Posix PageMap) : Prop where
  pageSize_eq : os.pageSize = BitVec.twoPow 64 k
  sets : ∀ addr len prot s s', 2 ^ k ∣ addr.toNat → os.mprotect addr len prot s = (none, s') →
    s' = setProt (pagesMeeting (2 ^ k) addr.toNat (roundUp (2 ^ k) (addr.toNat + len.toNat)))
      prot s
  errno_ne_zero : ∀ addr len prot s errno,
    (os.mprotect addr len prot s).1 = some errno → errno ≠ 0

/-- What is assumed of any `mprotect`: it changes requested pages only, none that
    is not mapped, and to the given protection. -/
def MprotectTouches (ps : PageSize) (os : Posix PageMap) : Prop :=
  ∀ addr len prot s, ps.bytes ∣ addr.toNat →
    ∃ T ⊆ requested ps addr len, (∀ q ∈ T, (s q).isSome)
      ∧ (os.mprotect addr len prot s).2 = setProt T prot s

/-- What is assumed of `mprotect` besides `MprotectSpec`, also when it fails: no
    page outside the request changes, and no page becomes mapped. -/
structure MprotectFrame (ps : PageSize) (os : Posix PageMap) : Prop where
  outside : ∀ addr len prot s q, ps.bytes ∣ addr.toNat → q ∉ requested ps addr len →
    (os.mprotect addr len prot s).2 q = s q
  unmapped : ∀ addr len prot s q, ps.bytes ∣ addr.toNat → s q = none →
    (os.mprotect addr len prot s).2 q = none

/-- From an aligned address the rounding of the end adds no page. -/
theorem MprotectRounds.call_sets {k : Nat} {os : Posix PageMap} (h : MprotectRounds k os)
    {addr len : BitVec 64} {prot : NativeProtection} (haddr : 2 ^ k ∣ addr.toNat)
    {s s' : PageMap} (hcall : os.mprotect addr len prot s = (none, s')) :
    s' = setProt (pagesMeeting (2 ^ k) addr.toNat (addr.toNat + len.toNat)) prot s := by
  rw [← pagesMeeting_roundUp (Nat.two_pow_pos k) haddr]
  exact h.sets addr len prot s s' haddr hcall

/-- With pages of at least two bytes it is enough to know when a call succeeds. -/
theorem MprotectRounds.spec {ps : PageSize} {os : Posix PageMap}
    (h : MprotectRounds ps.shift os)
    (hok : ∀ addr len prot s, ps.bytes ∣ addr.toNat →
      (∀ q ∈ requested ps addr len, (s q).isSome) → prot < 8 →
      (os.mprotect addr len prot s).1 = none) : MprotectSpec ps os :=
  ⟨h.pageSize_eq, fun _ _ _ _ _ hdvd _ hcall => h.call_sets hdvd hcall, hok⟩

/-- A page outside the pages that a call sets keeps its protection, also if it has
    none. -/
theorem MprotectTouches.frame {ps : PageSize} {os : Posix PageMap}
    (h : MprotectTouches ps os) : MprotectFrame ps os := by
  refine ⟨?_, ?_⟩
  · intro addr len prot s q hdvd hq
    obtain ⟨T, hT, -, hset⟩ := h addr len prot s hdvd
    rw [hset]
    exact put_not_mem (fun hmem => hq (hT hmem)) _ _
  · intro addr len prot s q hdvd hq
    obtain ⟨T, -, hmapped, hset⟩ := h addr len prot s hdvd
    have hkept := setProt_isSome hmapped prot q
    rw [hq] at hkept
    rw [hset]
    exact Option.not_isSome_iff_eq_none.mp (by rw [hkept]; decide)

theorem PageSize.pos_bytes (ps : PageSize) : 0 < ps.bytes := Nat.lt_trans Nat.one_pos ps.one_lt

/-! ## `protect` -/

/-- Bounds for which `protect` asks for the pages between them: in order, or
    just crossed at a page boundary. -/
def SaneBounds (ps : PageSize) (first last : BitVec 64) : Prop :=
  first ≤ last ∨ (first.toNat = last.toNat + 1 ∧ ps.bytes ∣ last.toNat)

section Protect

variable {ps : PageSize} {os : Posix PageMap} {first last : BitVec 64}

theorem roundDown_toNat (h : os.pageSize = BitVec.twoPow 64 ps.shift) (first : BitVec 64) :
    (first &&& -os.pageSize).toNat = first.toNat / ps.bytes * ps.bytes := by
  rw [h]
  exact and_neg_twoPow first ps.lt

theorem roundDown_dvd (h : os.pageSize = BitVec.twoPow 64 ps.shift) (first : BitVec 64) :
    ps.bytes ∣ (first &&& -os.pageSize).toNat := by
  rw [h]
  exact dvd_and_neg_twoPow first ps.lt

/-- **The pages `protect` asks for** are those that meet its range. -/
theorem requested_roundDown (h : os.pageSize = BitVec.twoPow 64 ps.shift) (hne : first ≠ last)
    (hb : SaneBounds ps first last) :
    requested ps (first &&& -os.pageSize) (last - (first &&& -os.pageSize))
      = pagesMeeting ps.bytes first.toNat last.toNat := by
  rcases hb with hfl | ⟨hfl, hdvd⟩
  · have hlt : first < last := by bv_omega
    rw [h]
    exact pagesMeeting_and_neg ps.lt hlt
  · -- one byte behind the boundary rounds back to it: nothing is asked for
    have hround := roundDown_toNat h first
    obtain ⟨k, hk⟩ := hdvd
    have hdiv : first.toNat / ps.bytes = k := by
      rw [hfl, hk, Nat.mul_add_div ps.pos_bytes, Nat.div_eq_of_lt ps.one_lt, Nat.add_zero]
    have hrl : first &&& -os.pageSize = last := by
      refine BitVec.eq_of_toNat_eq ?_
      rw [hround, hdiv, hk, Nat.mul_comm]
    rw [requested, hrl, BitVec.sub_self, BitVec.toNat_ofNat, Nat.zero_mod, Nat.add_zero,
      pagesMeeting_empty (Nat.le_refl _), pagesMeeting_empty (by omega)]

/-- **A `protect` that returns** has set exactly the pages that meet its range. -/
theorem MprotectSpec.protect_sets (h : MprotectSpec ps os) {prot : Protection} {s s' : PageMap}
    (hb : SaneBounds ps first last)
    (hmapped : ∀ q ∈ pagesMeeting ps.bytes first.toNat last.toNat, (s q).isSome)
    (hrun : (os.protect first last prot).run s = (.ok (), s')) :
    s' = setProt (pagesMeeting ps.bytes first.toNat last.toNat) prot.native s := by
  rw [Posix.protect_run] at hrun
  by_cases hne : first = last
  · -- equal bounds: no call, and no page meets the range
    rw [if_pos hne] at hrun
    rw [← (Prod.mk.inj hrun).2, hne, pagesMeeting_empty (Nat.le_refl _)]
    exact (put_empty ..).symm
  · rw [if_neg hne] at hrun
    have hreq := requested_roundDown h.pageSize_eq hne hb
    rw [← hreq] at hmapped ⊢
    rcases hcall : os.mprotect (first &&& -os.pageSize) (last - (first &&& -os.pageSize))
      prot.native s with ⟨_ | errno, s''⟩
    · rw [hcall] at hrun
      obtain rfl : s'' = s' := (Prod.mk.inj hrun).2
      exact h.sets _ _ _ _ _ (roundDown_dvd h.pageSize_eq first) hmapped hcall
    · rw [hcall] at hrun
      exact nomatch (Prod.mk.inj hrun).1

/-- The call of `mprotect` behind a `protect` on mapped pages. -/
theorem MprotectSpec.mprotect_ok (h : MprotectSpec ps os) {prot : NativeProtection} {s : PageMap}
    (hne : first ≠ last) (hb : SaneBounds ps first last) (hprot : prot < 8)
    (hmapped : ∀ q ∈ pagesMeeting ps.bytes first.toNat last.toNat, (s q).isSome) :
    os.mprotect (first &&& -os.pageSize) (last - (first &&& -os.pageSize)) prot s
      = (none, setProt (pagesMeeting ps.bytes first.toNat last.toNat) prot s) := by
  rw [← requested_roundDown h.pageSize_eq hne hb] at hmapped ⊢
  have hok := h.succeeds _ _ _ _ (roundDown_dvd h.pageSize_eq first) hmapped hprot
  rcases hcall : os.mprotect (first &&& -os.pageSize) (last - (first &&& -os.pageSize)) prot s
    with ⟨r, s'⟩
  rw [hcall] at hok
  obtain rfl : r = none := hok
  rw [h.sets _ _ _ _ _ (roundDown_dvd h.pageSize_eq first) hmapped hcall]

/-- **`protect` on mapped pages** returns and sets exactly the pages that meet
    its range. -/
theorem MprotectSpec.protect_ok (h : MprotectSpec ps os) {prot : Protection} {s : PageMap}
    (hb : SaneBounds ps first last) (hprot : prot.IsRwx)
    (hmapped : ∀ q ∈ pagesMeeting ps.bytes first.toNat last.toNat, (s q).isSome) :
    (os.protect first last prot).run s
      = (.ok (), setProt (pagesMeeting ps.bytes first.toNat last.toNat) prot.native s) := by
  rw [Posix.protect_run]
  by_cases hne : first = last
  · rw [if_pos hne, hne, pagesMeeting_empty (Nat.le_refl _), setProt, put_empty]
  · rw [if_neg hne, h.mprotect_ok hne hb hprot hmapped]
    rfl

end Protect

/-! ## Listings of a state -/

/-- The line covers the page `q`. -/
def MapsLine.HasPage (ps : PageSize) (l : MapsLine) (q : Nat) : Prop :=
  l.beginAddr.toNat ≤ q * ps.bytes ∧ q * ps.bytes < l.endAddr.toNat

instance (ps : PageSize) (l : MapsLine) (q : Nat) : Decidable (l.HasPage ps q) :=
  inferInstanceAs (Decidable (_ ∧ _))

/-- The listing describes the state: its bounds are page boundaries, the pages
    of a line have its protection, and every mapped page is on a line. -/
structure Describes (ps : PageSize) (L : Listing) (s : PageMap) : Prop where
  aligned : L.PageAligned ps
  mapped : ∀ l ∈ L.lines, ∀ q, l.HasPage ps q → s q = some l.protection.native
  listed : ∀ q, (s q).isSome → ∃ l ∈ L.lines, l.HasPage ps q

/-- On a line with page-aligned bounds, an address lies on it if and only if
    its page does. -/
theorem hasPage_div_iff {ps : PageSize} {l : MapsLine} (hb : ps.bytes ∣ l.beginAddr.toNat)
    (he : ps.bytes ∣ l.endAddr.toNat) (x : Nat) :
    l.HasPage ps (x / ps.bytes) ↔ l.beginAddr.toNat ≤ x ∧ x < l.endAddr.toNat := by
  have hpos := ps.pos_bytes
  obtain ⟨i, hi⟩ := hb
  obtain ⟨j, hj⟩ := he
  rw [MapsLine.HasPage, hi, hj, Nat.mul_comm ps.bytes i, Nat.mul_comm ps.bytes j,
    Nat.mul_le_mul_right_iff hpos, Nat.mul_lt_mul_right hpos, Nat.le_div_iff_mul_le hpos,
    Nat.div_lt_iff_lt_mul hpos]

/-! ## An `mprotect` -/

/-- Sets `n` pages from `q` on, up to the first one that is not mapped. -/
def mprotectPages (prot : NativeProtection) : Nat → Nat → PageMap → Option Int × PageMap
  | 0, _, s => (none, s)
  | n + 1, q, s =>
      match s q with
      | none => (some 12, s)
      | some _ => mprotectPages prot n (q + 1) (Function.update s q (some prot))

/-- A system whose `mprotect` refuses unaligned addresses and unknown
    protections with `EINVAL`, and stops at an unmapped page with `ENOMEM`. -/
def walkingPosix (ps : PageSize) : Posix PageMap where
  mprotect := fun addr len prot s =>
    if ps.bytes ∣ addr.toNat ∧ prot.toNat < 8 then
      mprotectPages prot ((len.toNat + ps.bytes - 1) / ps.bytes) (addr.toNat / ps.bytes) s
    else (some 22, s)
  pageSize := BitVec.twoPow 64 ps.shift

/-- The walk sets a prefix of its pages, all of them mapped, and every page if it
    succeeds. -/
theorem mprotectPages_spec (prot : NativeProtection) (n q : Nat) (s : PageMap) :
    ∃ k, k ≤ n ∧ (mprotectPages prot n q s).2 = setProt (Set.Ico q (q + k)) prot s
      ∧ (∀ p ∈ Set.Ico q (q + k), (s p).isSome)
      ∧ ((mprotectPages prot n q s).1 = none → k = n) := by
  induction n generalizing q s with
  | zero =>
      refine ⟨0, Nat.le_refl 0, ?_, ?_, fun _ => rfl⟩
      · rw [Nat.add_zero, Set.Ico_self, setProt, put_empty]
        rfl
      · intro p hp
        rw [Nat.add_zero, Set.Ico_self] at hp
        exact absurd hp (Set.notMem_empty p)
  | succ n ih =>
      rw [mprotectPages]
      cases hq : s q with
      | none =>
          refine ⟨0, Nat.zero_le _, ?_, ?_, fun h => nomatch h⟩
          · rw [Nat.add_zero q, Set.Ico_self, setProt, put_empty]
          · intro p hp
            rw [Nat.add_zero q, Set.Ico_self] at hp
            exact absurd hp (Set.notMem_empty p)
      | some v =>
          obtain ⟨k, hk, hset, hmapped, hall⟩ := ih (q + 1) (Function.update s q (some prot))
          refine ⟨k + 1, Nat.succ_le_succ hk, ?_, ?_, fun h => congrArg Nat.succ (hall h)⟩
          · show (mprotectPages prot n (q + 1) (Function.update s q (some prot))).2 = _
            rw [hset]
            ext p x
            by_cases hp : p ∈ Set.Ico (q + 1) (q + 1 + k)
            · rw [setProt, put_mem hp, setProt, put_mem]
              obtain ⟨h1, h2⟩ := hp
              exact ⟨by omega, by omega⟩
            · rw [setProt, put_not_mem hp]
              by_cases hpq : p = q
              · rw [hpq, Function.update_self, setProt, put_mem]
                exact ⟨Nat.le_refl q, by omega⟩
              · rw [Function.update_of_ne hpq, setProt, put_not_mem]
                rintro ⟨h1, h2⟩
                exact hp ⟨by omega, by omega⟩
          · rintro p ⟨h1, h2⟩
            by_cases hpq : p = q
            · rw [hpq, hq]
              rfl
            · have hrest := hmapped p ⟨by omega, by omega⟩
              rw [Function.update_of_ne hpq] at hrest
              exact hrest

/-- On mapped pages the walk succeeds. -/
theorem mprotectPages_mapped (prot : NativeProtection) (n q : Nat) (s : PageMap)
    (h : ∀ p, q ≤ p → p < q + n → (s p).isSome) : (mprotectPages prot n q s).1 = none := by
  induction n generalizing q s with
  | zero => rfl
  | succ n ih =>
      obtain ⟨v, hv⟩ := Option.isSome_iff_exists.mp (h q (Nat.le_refl q) (by omega))
      rw [mprotectPages, hv]
      refine ih (q + 1) _ ?_
      intro p h1 h2
      rw [Function.update_of_ne (by omega)]
      exact h p (by omega) (by omega)

/-- The pages a call asks for are as many as its length, rounded up. -/
theorem requested_eq {ps : PageSize} {addr : BitVec 64} (h : ps.bytes ∣ addr.toNat)
    (len : BitVec 64) :
    requested ps addr len = Set.Ico (addr.toNat / ps.bytes)
      (addr.toNat / ps.bytes + (len.toNat + ps.bytes - 1) / ps.bytes) := by
  have hpos := ps.pos_bytes
  obtain ⟨k, hk⟩ := h
  have hdiv : addr.toNat / ps.bytes = k := by rw [hk, Nat.mul_div_cancel_left k hpos]
  ext p
  rw [requested, mem_pagesMeeting hpos, hdiv, Set.mem_Ico]
  constructor
  · rintro ⟨h1, h2, h3⟩
    refine ⟨h2, ?_⟩
    obtain ⟨j, rfl⟩ := Nat.exists_eq_add_of_le h2
    have hj : j * ps.bytes < len.toNat := by
      rw [hk, Nat.add_mul, Nat.mul_comm k] at h3
      omega
    have hle : j + 1 ≤ (len.toNat + ps.bytes - 1) / ps.bytes := by
      rw [Nat.le_div_iff_mul_le hpos, Nat.succ_mul]
      omega
    omega
  · rintro ⟨h2, h3⟩
    obtain ⟨j, rfl⟩ := Nat.exists_eq_add_of_le h2
    have hle : j + 1 ≤ (len.toNat + ps.bytes - 1) / ps.bytes := by omega
    rw [Nat.le_div_iff_mul_le hpos, Nat.succ_mul] at hle
    refine ⟨by omega, h2, ?_⟩
    rw [hk, Nat.add_mul, Nat.mul_comm k]
    omega

/-- A walk that succeeds has set the requested pages. -/
theorem walkingPosix_sets {ps : PageSize} {addr len : BitVec 64} {prot : NativeProtection}
    {s s' : PageMap} (hdvd : ps.bytes ∣ addr.toNat)
    (hcall : (walkingPosix ps).mprotect addr len prot s = (none, s')) :
    s' = setProt (requested ps addr len) prot s := by
  by_cases hc : ps.bytes ∣ addr.toNat ∧ prot.toNat < 8
  · obtain ⟨k, -, hset, -, hall⟩ := mprotectPages_spec prot
      ((len.toNat + ps.bytes - 1) / ps.bytes) (addr.toNat / ps.bytes) s
    have hcall' : mprotectPages prot ((len.toNat + ps.bytes - 1) / ps.bytes)
        (addr.toNat / ps.bytes) s = (none, s') := (if_pos hc).symm.trans hcall
    rw [hcall'] at hset hall
    rw [requested_eq hdvd, ← hall rfl]
    exact hset
  · have hcall' : (some 22, s) = ((none, s') : Option Int × PageMap) :=
      (if_neg hc).symm.trans hcall
    exact nomatch (Prod.mk.inj hcall').1

/-- The walking `mprotect` fails with an `errno`. -/
theorem mprotectPages_errno (prot : NativeProtection) (n q : Nat) (s : PageMap) (errno : Int)
    (h : (mprotectPages prot n q s).1 = some errno) : errno ≠ 0 := by
  induction n generalizing q s with
  | zero => exact absurd h.symm (Option.some_ne_none errno)
  | succ n ih =>
      rw [mprotectPages] at h
      cases hq : s q with
      | none =>
          rw [hq] at h
          obtain rfl := Option.some.inj h
          decide
      | some v =>
          rw [hq] at h
          exact ih _ _ h

theorem walkingPosix_errno (ps : PageSize) :
    ∀ addr len prot s errno,
      ((walkingPosix ps).mprotect addr len prot s).1 = some errno → errno ≠ 0 := by
  intro addr len prot s errno h
  have h' : (if ps.bytes ∣ addr.toNat ∧ prot.toNat < 8 then
      mprotectPages prot ((len.toNat + ps.bytes - 1) / ps.bytes) (addr.toNat / ps.bytes) s
    else (some 22, s)).1 = some errno := h
  by_cases hc : ps.bytes ∣ addr.toNat ∧ prot.toNat < 8
  · rw [if_pos hc] at h'
    exact mprotectPages_errno _ _ _ _ _ h'
  · rw [if_neg hc] at h'
    obtain rfl := Option.some.inj h'
    decide

theorem walkingPosix_rounds (ps : PageSize) : MprotectRounds ps.shift (walkingPosix ps) := by
  refine ⟨rfl, ?_, walkingPosix_errno ps⟩
  intro addr len prot s s' hdvd hcall
  rw [pagesMeeting_roundUp (Nat.two_pow_pos ps.shift) hdvd]
  exact walkingPosix_sets hdvd hcall

theorem walkingPosix_spec (ps : PageSize) : MprotectSpec ps (walkingPosix ps) := by
  refine (walkingPosix_rounds ps).spec ?_
  intro addr len prot s hdvd hmapped hprot
  rw [requested_eq hdvd] at hmapped
  show (ite _ _ _ : Option Int × PageMap).1 = none
  rw [if_pos ⟨hdvd, hprot⟩]
  exact mprotectPages_mapped prot _ _ s (fun p h1 h2 => hmapped p ⟨h1, h2⟩)

theorem walkingPosix_touches (ps : PageSize) : MprotectTouches ps (walkingPosix ps) := by
  intro addr len prot s hdvd
  by_cases hc : ps.bytes ∣ addr.toNat ∧ prot.toNat < 8
  · have hcall : (walkingPosix ps).mprotect addr len prot s = mprotectPages prot
        ((len.toNat + ps.bytes - 1) / ps.bytes) (addr.toNat / ps.bytes) s := if_pos hc
    obtain ⟨k, hk, hset, hmapped, -⟩ := mprotectPages_spec prot
      ((len.toNat + ps.bytes - 1) / ps.bytes) (addr.toNat / ps.bytes) s
    rw [hcall, requested_eq hdvd]
    exact ⟨_, Set.Ico_subset_Ico_right (Nat.add_le_add_left hk _), hmapped, hset⟩
  · have hcall : (walkingPosix ps).mprotect addr len prot s = (some 22, s) := if_neg hc
    rw [hcall]
    refine ⟨∅, Set.empty_subset _, fun _ hq => absurd hq (Set.notMem_empty _), ?_⟩
    rw [setProt, put_empty]

theorem walkingPosix_frame (ps : PageSize) : MprotectFrame ps (walkingPosix ps) :=
  (walkingPosix_touches ps).frame

/-- 4096 bytes. -/
def samplePageSize : PageSize := ⟨12, by decide, by decide⟩

/-- The state that the sample listing describes. -/
def sampleState : PageMap := fun q =>
  if q = 1 then some 1 else if q = 2 ∨ q = 3 then some 3 else if q = 8 then some 5 else none

theorem sampleState_described : Describes samplePageSize sampleListing sampleState := by
  refine ⟨⟨by decide, by decide⟩, ?_, ?_⟩
  · intro l hl q hq
    have hlines : l = .anonymous 0x1000 0x2000 true false false false
        ∨ l = .anonymous 0x2000 0x4000 true true false false
        ∨ l = .anonymous 0x8000 0x9000 true false true false := by
      simpa [sampleListing] using hl
    have hbytes : samplePageSize.bytes = 4096 := rfl
    obtain ⟨h1, h2⟩ := hq
    rw [hbytes] at h1 h2
    rcases hlines with rfl | rfl | rfl
    · have h1' : 0x1000 ≤ q * 4096 := h1
      have h2' : q * 4096 < 0x2000 := h2
      obtain rfl : q = 1 := by omega
      rfl
    · have h1' : 0x2000 ≤ q * 4096 := h1
      have h2' : q * 4096 < 0x4000 := h2
      obtain rfl | rfl : q = 2 ∨ q = 3 := by omega
      · rfl
      · rfl
    · have h1' : 0x8000 ≤ q * 4096 := h1
      have h2' : q * 4096 < 0x9000 := h2
      obtain rfl : q = 8 := by omega
      rfl
  · intro q hq
    have hq' : q = 1 ∨ (q = 2 ∨ q = 3) ∨ q = 8 := by
      by_contra hnot
      simp only [not_or] at hnot
      simp [sampleState, hnot] at hq
    rcases hq' with rfl | (rfl | rfl) | rfl
    · exact ⟨_, List.mem_cons_self .., by decide⟩
    · exact ⟨_, List.mem_cons_of_mem _ (List.mem_cons_self ..), by decide⟩
    · exact ⟨_, List.mem_cons_of_mem _ (List.mem_cons_self ..), by decide⟩
    · exact ⟨_, List.mem_cons_of_mem _ (List.mem_cons_of_mem _ (List.mem_cons_self ..)), by decide⟩

end VmUtils
