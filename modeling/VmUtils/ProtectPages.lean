import VmUtils.PageState

/-! # The pages that `protect` changes

    `protect` rounds the first bound down to a page, takes the length from there
    and leaves it to `mprotect` to round the end up.  For bounds in order below
    the last page nothing wraps on the way, and a success sets the pages that meet
    `[first, last)` and no other; the single-page overloads set the page of their
    address, the last page of the address space included
    (`protect_sets_exactly`). -/

namespace VmUtils

open Pages Overlay

variable {k : Nat} {os : Posix PageMap} {first last : BitVec 64} {prot : Protection}

/-- A call that returns sets the protection on exactly the pages of `S`. -/
def SetsExactly (call : OsM PageMap Unit) (S : Set Nat) (prot : Protection) : Prop :=
  ∀ s s', call.run s = (.ok (), s') → s' = setProt S prot.native s

/-- A call that leaves a clear `ec` clear sets exactly the pages of `S`. -/
def SetsExactlyEc (call : ErrorCode → OsM PageMap ErrorCode) (S : Set Nat) (prot : Protection) :
    Prop :=
  ∀ ec ec' s s', ec.isSet = false → (call ec).run s = (.ok ec', s') → ec'.isSet = false →
    s' = setProt S prot.native s

/-- Both overloads make one call of `mprotect`, from the page of the first bound
    to the last bound, and neither the sum nor the end rounded up wraps. -/
def CallsWithoutWrap (k : Nat) (os : Posix PageMap) (first last : BitVec 64)
    (prot : Protection) : Prop :=
  ∃ addr len : BitVec 64,
    (∀ s, (os.protect first last prot).run s
        = mprotectOutcome (os.mprotect addr len prot.native s))
    ∧ (∀ ec s, (os.protectEc first last prot ec).run s
        = mprotectOutcomeEc ec (os.mprotect addr len prot.native s))
    ∧ addr.toNat = first.toNat / 2 ^ k * 2 ^ k
    ∧ addr.toNat + len.toNat = last.toNat
    ∧ roundUp (2 ^ k) (addr.toNat + len.toNat) < 2 ^ 64

/-- Both single-page overloads make one call of `mprotect` for one byte, from the
    page of the address on, and the end rounded up is in the address space. -/
def CallsForPage (k : Nat) (os : Posix PageMap) (address : BitVec 64) (prot : Protection) : Prop :=
  ∃ addr : BitVec 64,
    (∀ s, (os.platform.protectPage address prot).run s
        = mprotectOutcome (os.mprotect addr 1 prot.native s))
    ∧ (∀ ec s, (os.platform.protectPageEc address prot ec).run s
        = mprotectOutcomeEc ec (os.mprotect addr 1 prot.native s))
    ∧ addr.toNat = address.toNat / 2 ^ k * 2 ^ k
    ∧ roundUp (2 ^ k) (addr.toNat + (1 : BitVec 64).toNat) ≤ 2 ^ 64

/-! ## One call -/

/-- What the throwing overload leaves behind. -/
theorem MprotectRounds.outcome_sets (h : MprotectRounds k os) {addr len : BitVec 64}
    {prot : NativeProtection} (haddr : 2 ^ k ∣ addr.toNat) {s s' : PageMap}
    (hrun : mprotectOutcome (os.mprotect addr len prot s) = (.ok (), s')) :
    s' = setProt (pagesMeeting (2 ^ k) addr.toNat (addr.toNat + len.toNat)) prot s := by
  rcases hcall : os.mprotect addr len prot s with ⟨_ | errno, s''⟩
  · rw [hcall] at hrun
    obtain rfl : s'' = s' := (Prod.mk.inj hrun).2
    exact h.call_sets haddr hcall
  · rw [hcall] at hrun
    exact nomatch (Prod.mk.inj hrun).1

/-- What the overload with `ec` leaves behind: a failure shows in `ec`. -/
theorem MprotectRounds.outcomeEc_sets (h : MprotectRounds k os) {addr len : BitVec 64}
    {prot : NativeProtection} (haddr : 2 ^ k ∣ addr.toNat) {ec ec' : ErrorCode} {s s' : PageMap}
    (hrun : mprotectOutcomeEc ec (os.mprotect addr len prot s) = (.ok ec', s'))
    (hclear : ec'.isSet = false) :
    s' = setProt (pagesMeeting (2 ^ k) addr.toNat (addr.toNat + len.toNat)) prot s := by
  rcases hcall : os.mprotect addr len prot s with ⟨_ | errno, s''⟩
  · rw [hcall] at hrun
    obtain rfl : s'' = s' := (Prod.mk.inj hrun).2
    exact h.call_sets haddr hcall
  · rw [hcall] at hrun
    obtain rfl : ({ value := errno } : ErrorCode) = ec' := Except.ok.inj (Prod.mk.inj hrun).1
    have hne := h.errno_ne_zero addr len prot s errno (congrArg Prod.fst hcall)
    exact absurd hclear (by simp [ErrorCode.isSet, hne])

/-! ## Ranges -/

/-- Nothing wraps for bounds below the last page. -/
theorem MprotectRounds.callsWithoutWrap (h : MprotectRounds k os) (hk : k < 64)
    (hlt : first < last) (hlast : last.toNat ≤ 2 ^ 64 - 2 ^ k) :
    CallsWithoutWrap k os first last prot := by
  have hne : first ≠ last := BitVec.ne_of_lt hlt
  have hend := toNat_add_sub_round hk (BitVec.le_of_lt hlt)
  refine ⟨first &&& -(BitVec.twoPow 64 k), last - (first &&& -(BitVec.twoPow 64 k)), ?_, ?_,
    and_neg_twoPow first hk, hend, ?_⟩
  · intro s
    rw [Posix.protect_run, if_neg hne, h.pageSize_eq]
  · intro ec s
    rw [Posix.protectEc_run, if_neg hne, h.pageSize_eq]
  · -- the last page boundary below the top is a multiple of the page size
    have hdvd : 2 ^ k ∣ 2 ^ 64 - 2 ^ k :=
      Nat.dvd_sub (Nat.pow_dvd_pow 2 (Nat.le_of_lt hk)) (Nat.dvd_refl _)
    have hround := roundUp_le (Nat.two_pow_pos k) hdvd hlast
    have hpos : 0 < 2 ^ k := Nat.two_pow_pos k
    rw [hend]
    omega

theorem MprotectRounds.protect_setsExactly (h : MprotectRounds k os) (hk : k < 64)
    (hlt : first < last) :
    SetsExactly (os.protect first last prot) (pagesMeeting (2 ^ k) first.toNat last.toNat)
      prot := by
  intro s s' hrun
  have hne : first ≠ last := BitVec.ne_of_lt hlt
  rw [Posix.protect_run, if_neg hne, h.pageSize_eq] at hrun
  rw [← pagesMeeting_and_neg hk hlt]
  exact h.outcome_sets (dvd_and_neg_twoPow first hk) hrun

theorem MprotectRounds.protectEc_setsExactly (h : MprotectRounds k os) (hk : k < 64)
    (hlt : first < last) :
    SetsExactlyEc (os.protectEc first last prot)
      (pagesMeeting (2 ^ k) first.toNat last.toNat) prot := by
  intro ec ec' s s' _ hrun hclear
  have hne : first ≠ last := BitVec.ne_of_lt hlt
  rw [Posix.protectEc_run, if_neg hne, h.pageSize_eq] at hrun
  rw [← pagesMeeting_and_neg hk hlt]
  exact h.outcomeEc_sets (dvd_and_neg_twoPow first hk) hrun hclear

/-! ## Single pages -/

/-- The single-page overloads ask for one byte of the page, also where the bound
    behind that byte wraps to zero. -/
theorem page_call (os : Posix PageMap) (address : BitVec 64) :
    address &&& -os.pageSize ≠ (address &&& -os.pageSize) + 1
      ∧ address &&& -os.pageSize &&& -os.pageSize = address &&& -os.pageSize
      ∧ (address &&& -os.pageSize) + 1 - (address &&& -os.pageSize) = 1 := by
  refine ⟨?_, ?_, ?_⟩
  · generalize address &&& -os.pageSize = fixed
    bv_omega
  · rw [BitVec.and_assoc, BitVec.and_self]
  · rw [BitVec.add_comm, BitVec.add_sub_cancel]

theorem Posix.protectPage_run (os : Posix PageMap) (address : BitVec 64) (prot : Protection)
    (s : PageMap) :
    (os.platform.protectPage address prot).run s
      = mprotectOutcome (os.mprotect (address &&& -os.pageSize) 1 prot.native s) := by
  obtain ⟨hne, hidem, hlen⟩ := page_call os address
  rw [Platform.protectPage, posix_fixedAddress]
  show (os.protect _ _ prot).run s = _
  rw [Posix.protect_run, if_neg hne, hidem, hlen]

theorem Posix.protectPageEc_run (os : Posix PageMap) (address : BitVec 64) (prot : Protection)
    (ec : ErrorCode) (s : PageMap) :
    (os.platform.protectPageEc address prot ec).run s
      = mprotectOutcomeEc ec (os.mprotect (address &&& -os.pageSize) 1 prot.native s) := by
  obtain ⟨hne, hidem, hlen⟩ := page_call os address
  rw [Platform.protectPageEc, posix_fixedAddress]
  show (os.protectEc _ _ prot ec).run s = _
  rw [Posix.protectEc_run, if_neg hne, hidem, hlen]

theorem MprotectRounds.callsForPage (h : MprotectRounds k os) (hk : k < 64)
    (address : BitVec 64) : CallsForPage k os address prot := by
  have hdvd : 2 ^ k ∣ 2 ^ 64 := Nat.pow_dvd_pow 2 (Nat.le_of_lt hk)
  refine ⟨address &&& -(BitVec.twoPow 64 k), ?_, ?_, and_neg_twoPow address hk,
    roundUp_le (Nat.two_pow_pos k) hdvd ?_⟩
  · intro s
    rw [Posix.protectPage_run, h.pageSize_eq]
  · intro ec s
    rw [Posix.protectPageEc_run, h.pageSize_eq]
  · exact Nat.succ_le_of_lt (address &&& -(BitVec.twoPow 64 k)).isLt

/-- One byte from the rounded address on meets the page of the address only. -/
theorem page_eq (hk : k < 64) (address : BitVec 64) :
    pagesMeeting (2 ^ k) (address &&& -(BitVec.twoPow 64 k)).toNat
        ((address &&& -(BitVec.twoPow 64 k)).toNat + (1 : BitVec 64).toNat)
      = {address.toNat / 2 ^ k} := by
  rw [and_neg_twoPow address hk]
  exact pagesMeeting_byte (Nat.two_pow_pos k)

theorem MprotectRounds.protectPage_setsExactly (h : MprotectRounds k os) (hk : k < 64)
    (address : BitVec 64) (prot : Protection) :
    SetsExactly (os.platform.protectPage address prot) {address.toNat / 2 ^ k} prot := by
  intro s s' hrun
  rw [Posix.protectPage_run, h.pageSize_eq] at hrun
  rw [← page_eq hk address]
  exact h.outcome_sets (dvd_and_neg_twoPow address hk) hrun

theorem MprotectRounds.protectPageEc_setsExactly (h : MprotectRounds k os) (hk : k < 64)
    (address : BitVec 64) (prot : Protection) :
    SetsExactlyEc (os.platform.protectPageEc address prot) {address.toNat / 2 ^ k} prot := by
  intro ec ec' s s' _ hrun hclear
  rw [Posix.protectPageEc_run, h.pageSize_eq] at hrun
  rw [← page_eq hk address]
  exact h.outcomeEc_sets (dvd_and_neg_twoPow address hk) hrun hclear

/-! ## All overloads -/

/-- **What `protect` changes.**  For every page size, a successful call with
    bounds in order below the last page sets exactly the pages that meet
    `[first, last)`, without a wrap on the way, and a successful single-page call
    sets exactly the page of its address, by one call for one byte of it. -/
theorem protect_sets_exactly (k : Nat) (hk : k < 64) (os : Posix PageMap)
    (hos : MprotectRounds k os) (prot : Protection) :
    (∀ first last : BitVec 64, first < last → last.toNat ≤ 2 ^ 64 - 2 ^ k →
      CallsWithoutWrap k os first last prot
        ∧ SetsExactly (os.protect first last prot)
            (pagesMeeting (2 ^ k) first.toNat last.toNat) prot
        ∧ SetsExactlyEc (os.protectEc first last prot)
            (pagesMeeting (2 ^ k) first.toNat last.toNat) prot)
      ∧ ∀ address : BitVec 64, CallsForPage k os address prot
        ∧ SetsExactly (os.platform.protectPage address prot) {address.toNat / 2 ^ k} prot
        ∧ SetsExactlyEc (os.platform.protectPageEc address prot) {address.toNat / 2 ^ k} prot := by
  constructor
  · intro first last hlt hlast
    exact ⟨hos.callsWithoutWrap hk hlt hlast, hos.protect_setsExactly hk hlt,
      hos.protectEc_setsExactly hk hlt⟩
  · intro address
    exact ⟨hos.callsForPage hk address, hos.protectPage_setsExactly hk address prot,
      hos.protectPageEc_setsExactly hk address prot⟩

theorem protect_sets_exactly_walking :
    (∀ first last : BitVec 64, first < last → last.toNat ≤ 2 ^ 64 - 2 ^ 12 →
      CallsWithoutWrap 12 (walkingPosix samplePageSize) first last ⟨1⟩
        ∧ SetsExactly ((walkingPosix samplePageSize).protect first last ⟨1⟩)
            (pagesMeeting (2 ^ 12) first.toNat last.toNat) ⟨1⟩
        ∧ SetsExactlyEc ((walkingPosix samplePageSize).protectEc first last ⟨1⟩)
            (pagesMeeting (2 ^ 12) first.toNat last.toNat) ⟨1⟩)
      ∧ ∀ address : BitVec 64, CallsForPage 12 (walkingPosix samplePageSize) address ⟨1⟩
        ∧ SetsExactly ((walkingPosix samplePageSize).platform.protectPage address ⟨1⟩)
          {address.toNat / 2 ^ 12} ⟨1⟩
        ∧ SetsExactlyEc ((walkingPosix samplePageSize).platform.protectPageEc address ⟨1⟩)
          {address.toNat / 2 ^ 12} ⟨1⟩ :=
  protect_sets_exactly 12 (by decide) (walkingPosix samplePageSize)
    (walkingPosix_rounds samplePageSize) ⟨1⟩

end VmUtils
