import VmUtils.WindowsQuery

/-! # Access flags and native protections

    `protection.hpp`, `detail/windows/protection.inl` and
    `detail/posix/protection.inl`.  An access value stands for a set of rights, on
    which its operators are those of sets.  On POSIX the native constant is the
    access value.  Windows has a constant for every set of rights in which writing
    comes with reading, so a way through the native constants adds the right to
    read (`windowsToNative_rights`), and a constant that `from_native` knows grants
    what its flags say (`windowsFromNative_rights`). -/

namespace VmUtils

/-! ## Rights -/

/-- What a protection can allow. -/
inductive Right where
  | read
  | write
  | exec
  deriving DecidableEq, Repr

/-- What holds of the three rights holds of every right. -/
instance (P : Right → Prop) [DecidablePred P] : Decidable (∀ a, P a) :=
  decidable_of_iff (P .read ∧ P .write ∧ P .exec)
    ⟨fun h a => by cases a <;> simp [h], fun h => ⟨h _, h _, h _⟩⟩

/-- `access`, an enumeration with a fixed underlying type: every value of that type
    can occur, and the operators act on it bit by bit. -/
abbrev Access := BitVec 32

/-- The position of the right's bit. -/
def Right.bit : Right → Nat
  | .read => 0
  | .write => 1
  | .exec => 2

/-- The enumerator of one right. -/
def Right.flag : Right → Access
  | .read => accessRead
  | .write => accessWrite
  | .exec => accessExec

/-- The rights that an access value stands for. -/
def rights (flags : Access) : Set Right := {a | flags &&& a.flag ≠ 0}

instance (flags : Access) (a : Right) : Decidable (a ∈ rights flags) :=
  inferInstanceAs (Decidable (_ ≠ _))

variable {flags flags' : Access} {a : Right} {native : NativeProtection}

theorem mem_rights : a ∈ rights flags ↔ flags.getLsbD a.bit = true := by
  have hflag : a.flag = BitVec.twoPow 32 a.bit := by cases a <;> rfl
  show flags &&& a.flag ≠ 0 ↔ _
  rw [hflag, BitVec.and_twoPow]
  cases flags.getLsbD a.bit with
  | false => simp
  | true => cases a <;> decide

/-- `operator|`. -/
@[simp] theorem rights_or : rights (flags ||| flags') = rights flags ∪ rights flags' := by
  ext a
  simp [mem_rights]

/-- `operator&`. -/
@[simp] theorem rights_and : rights (flags &&& flags') = rights flags ∩ rights flags' := by
  ext a
  simp [mem_rights]

/-- `operator^`. -/
@[simp] theorem rights_xor :
    rights (flags ^^^ flags') = symmDiff (rights flags) (rights flags') := by
  ext a
  simp only [mem_rights, BitVec.getLsbD_xor, Set.mem_symmDiff]
  cases flags.getLsbD a.bit <;> cases flags'.getLsbD a.bit <;> simp

/-- `operator~`. -/
@[simp] theorem rights_not : rights (~~~flags) = (rights flags)ᶜ := by
  ext a
  have hbit : a.bit < 32 := by cases a <;> decide
  simp [mem_rights, hbit]

/-- Combinations of the three enumerators are told apart by their rights. -/
theorem rights_injective (h : flags < 8) (h' : flags' < 8) (heq : rights flags = rights flags') :
    flags = flags' := by
  have hbits : ∀ a : Right, flags.getLsbD a.bit = flags'.getLsbD a.bit := by
    intro a
    rw [Bool.eq_iff_iff, ← mem_rights, ← mem_rights, heq]
  have hread := hbits .read
  have hwrite := hbits .write
  have hexec := hbits .exec
  refine BitVec.eq_of_getLsbD_eq ?_
  intro i hi
  match i with
  | 0 => exact hread
  | 1 => exact hwrite
  | 2 => exact hexec
  | i + 3 =>
      have hhigh : ∀ f : Access, f < 8 → f.getLsbD (i + 3) = false := by
        intro f hf
        have hlt : f.toNat < 2 ^ 3 := hf
        exact Nat.testBit_lt_two_pow
          (Nat.lt_of_lt_of_le hlt (Nat.pow_le_pow_right Nat.two_pos (Nat.le_add_left 3 i)))
      rw [hhigh flags h, hhigh flags' h']

/-! ## POSIX -/

/-- `to_native` on POSIX. -/
def posixToNative (flags : Access) : NativeProtection := flags

/-- `from_native` on POSIX. -/
def posixFromNative (flags : NativeProtection) : Access := flags

/-- The rights that `readable()`, `writable()` and `executable()` report on POSIX. -/
def posixRights (p : Protection) : Set Right :=
  {a | match a with
    | .read => p.readable = true
    | .write => p.writable = true
    | .exec => p.executable = true}

/-- The predicates of POSIX report the rights of the flags. -/
theorem posixRights_eq (p : Protection) : posixRights p = rights (posixFromNative p.native) := by
  ext a
  cases a <;>
  · show (_ != (0 : BitVec 32)) = true ↔ _ ≠ _
    rw [bne_iff_ne]
    rfl

/-! ## Windows -/

/-- `page_protection`. -/
def noaccess : NativeProtection := 0x01
def readonly : NativeProtection := 0x02
def readwrite : NativeProtection := 0x04
def writecopy : NativeProtection := 0x08
def execute : NativeProtection := 0x10
def executeRead : NativeProtection := 0x20
def executeReadwrite : NativeProtection := 0x40
def executeWritecopy : NativeProtection := 0x80
def guardPage : NativeProtection := 0x100
def nocache : NativeProtection := 0x200
def writecombine : NativeProtection := 0x400

/-- The bits that `from_native` masks. -/
def modifiers : NativeProtection := guardPage ||| nocache ||| writecombine

/-- `to_native` on Windows. -/
def windowsToNative (flags : Access) : Except Exn NativeProtection :=
  if flags = 0 then .ok noaccess
  else if flags = accessRead then .ok readonly
  else if flags = accessWrite then .ok readwrite -- no writeonly
  else if flags = accessExec then .ok execute
  else if flags = accessRead ||| accessWrite then .ok readwrite
  else if flags = accessRead ||| accessExec then .ok executeRead
  else if flags = accessWrite ||| accessExec then .ok executeReadwrite
  else if flags = accessRead ||| accessWrite ||| accessExec then .ok executeReadwrite
  else .error (.logicError "unknown protection access combination")

/-- `std::range_error`. -/
structure RangeError where
  what : String
  deriving DecidableEq, Repr

/-- `from_native` on Windows. -/
def windowsFromNative (flags : NativeProtection) : Except RangeError Access :=
  let masked := flags &&& ~~~modifiers
  if masked = noaccess then .ok 0
  else if masked = readonly then .ok accessRead
  else if masked = execute then .ok accessExec
  else if masked = readwrite then .ok (accessRead ||| accessWrite)
  else if masked = writecopy then .ok (accessRead ||| accessWrite)
  else if masked = executeRead then .ok (accessRead ||| accessExec)
  else if masked = executeReadwrite then .ok (accessRead ||| accessWrite ||| accessExec)
  else if masked = executeWritecopy then .ok (accessRead ||| accessWrite ||| accessExec)
  else .error ⟨"unknown protection constant: " ++ toString flags.toNat⟩

/-- `accessible()` on Windows. -/
def windowsAccessible (native : NativeProtection) : Bool := !(native &&& noaccess != 0)

/-- `readable()` on Windows. -/
def windowsReadable (native : NativeProtection) : Bool :=
  windowsAccessible native
    && (native &&& readwrite != 0 || native &&& executeRead != 0
      || native &&& executeReadwrite != 0 || native &&& readonly != 0
      || native &&& writecopy != 0 || native &&& executeWritecopy != 0)

/-- `writable()` on Windows. -/
def windowsWritable (native : NativeProtection) : Bool :=
  windowsAccessible native
    && (native &&& readwrite != 0 || native &&& executeReadwrite != 0
      || native &&& executeWritecopy != 0 || native &&& writecopy != 0)

/-- `executable()` on Windows. -/
def windowsExecutable (native : NativeProtection) : Bool :=
  windowsAccessible native
    && (native &&& executeRead != 0 || native &&& execute != 0
      || native &&& executeReadwrite != 0 || native &&& executeWritecopy != 0)

/-- The rights that the predicates report on Windows. -/
def windowsRights (native : NativeProtection) : Set Right :=
  {a | match a with
    | .read => windowsReadable native = true
    | .write => windowsWritable native = true
    | .exec => windowsExecutable native = true}

instance (native : NativeProtection) (a : Right) : Decidable (a ∈ windowsRights native) :=
  match a with
  | .read => inferInstanceAs (Decidable (windowsReadable native = true))
  | .write => inferInstanceAs (Decidable (windowsWritable native = true))
  | .exec => inferInstanceAs (Decidable (windowsExecutable native = true))

/-! ### The constants -/

/-- The constants that `from_native` knows, with their flags. -/
def pageConstants : List (NativeProtection × Access) :=
  [(noaccess, 0), (readonly, 1), (execute, 4), (readwrite, 3), (writecopy, 3), (executeRead, 5),
    (executeReadwrite, 7), (executeWritecopy, 7)]

/-- **`from_native` returns for the constants it knows**, whatever modifiers are
    set, and throws for the others. -/
theorem windowsFromNative_eq_ok_iff :
    windowsFromNative native = .ok flags ↔ (native &&& ~~~modifiers, flags) ∈ pageConstants := by
  rw [windowsFromNative]
  generalize native &&& ~~~modifiers = masked
  constructor
  · intro h
    -- one case for every label of the switch
    repeat' split at h
    all_goals cases h
    all_goals
      rename_i heq
      rw [heq]
      decide
  · intro h
    simp only [pageConstants, List.mem_cons, Prod.mk.injEq, List.not_mem_nil, or_false] at h
    rcases h with ⟨rfl, rfl⟩ | ⟨rfl, rfl⟩ | ⟨rfl, rfl⟩ | ⟨rfl, rfl⟩ | ⟨rfl, rfl⟩ | ⟨rfl, rfl⟩
      | ⟨rfl, rfl⟩ | ⟨rfl, rfl⟩
    all_goals rfl

/-- The modifiers are in none of the constants the predicates look at. -/
theorem masked_and {c : NativeProtection} (hc : ~~~modifiers &&& c = c) :
    native &&& ~~~modifiers &&& c = native &&& c := by
  rw [BitVec.and_assoc, hc]

theorem windowsAccessible_masked :
    windowsAccessible (native &&& ~~~modifiers) = windowsAccessible native := by
  rw [windowsAccessible, windowsAccessible, masked_and (by decide)]

/-- The predicates do not see the modifiers. -/
theorem windowsRights_masked : windowsRights (native &&& ~~~modifiers) = windowsRights native := by
  ext a
  cases a
  · show windowsReadable _ = true ↔ windowsReadable _ = true
    simp (disch := decide) only [windowsReadable, windowsAccessible, masked_and]
  · show windowsWritable _ = true ↔ windowsWritable _ = true
    simp (disch := decide) only [windowsWritable, windowsAccessible, masked_and]
  · show windowsExecutable _ = true ↔ windowsExecutable _ = true
    simp (disch := decide) only [windowsExecutable, windowsAccessible, masked_and]

/-- **The predicates agree with the flags**, for every constant that has flags. -/
theorem windowsFromNative_rights (h : windowsFromNative native = .ok flags) :
    flags < 8 ∧ windowsRights native = rights flags
      ∧ (windowsAccessible native = true ↔ flags ≠ 0) := by
  have htable : pageConstants.all (fun p => decide (p.2 < 8
      ∧ (∀ a, a ∈ windowsRights p.1 ↔ a ∈ rights p.2)
      ∧ (windowsAccessible p.1 = true ↔ p.2 ≠ 0))) = true := by
    decide
  obtain ⟨hlt, hrights, haccessible⟩ := of_decide_eq_true
    (List.all_eq_true.mp htable _ (windowsFromNative_eq_ok_iff.mp h))
  rw [windowsAccessible_masked] at haccessible
  refine ⟨hlt, ?_, haccessible⟩
  rw [← windowsRights_masked]
  exact Set.ext hrights

/-! ### The constant for a set of rights -/

/-- The least set of rights around a given one in which writing comes with
    reading. -/
def readClosure : ClosureOperator (Set Right) :=
  ClosureOperator.mk' (fun S => {a | a ∈ S ∨ a = .read ∧ Right.write ∈ S})
    (by
      intro S T hle a ha
      exact ha.imp (fun h => hle h) (fun h => ⟨h.1, hle h.2⟩))
    (fun S a ha => Or.inl ha)
    (by
      rintro S a (ha | ⟨rfl, hw | ⟨hw, -⟩⟩)
      · exact ha
      · exact Or.inr ⟨rfl, hw⟩
      · cases hw)

theorem mem_readClosure {S : Set Right} :
    a ∈ readClosure S ↔ a ∈ S ∨ a = .read ∧ Right.write ∈ S := Iff.rfl

/-- Whatever is writable is readable, on Windows. -/
theorem windowsRights_isClosed (native : NativeProtection) :
    readClosure.IsClosed (windowsRights native) := by
  refine readClosure.isClosed_iff_closure_le.mpr ?_
  rintro a (ha | ⟨rfl, hw⟩)
  · exact ha
  · have hw' : windowsWritable native = true := hw
    show windowsReadable native = true
    simp only [windowsWritable, windowsReadable, Bool.and_eq_true, Bool.or_eq_true] at hw' ⊢
    tauto

/-- The flags that come back: reading is added to writing. -/
def withRead (flags : Access) : Access :=
  if flags &&& accessWrite = 0 then flags else flags ||| accessRead

theorem rights_withRead (flags : Access) :
    rights (withRead flags) = readClosure (rights flags) := by
  have hread : ∀ a, a ∈ rights accessRead ↔ a = .read := by decide
  ext a
  rw [withRead, mem_readClosure]
  by_cases hw : flags &&& accessWrite = 0
  · rw [if_pos hw]
    exact (or_iff_left (fun h => h.2 hw)).symm
  · rw [if_neg hw, rights_or, Set.mem_union, hread]
    exact or_congr_right (and_iff_left hw).symm

/-- The access values that `to_native` knows, with their constants. -/
def accessConstants : List (Access × NativeProtection) :=
  [(0, noaccess), (1, readonly), (2, readwrite), (4, execute), (3, readwrite), (5, executeRead),
    (6, executeReadwrite), (7, executeReadwrite)]

theorem windowsToNative_eq_ok_iff :
    windowsToNative flags = .ok native ↔ (flags, native) ∈ accessConstants := by
  rw [windowsToNative]
  constructor
  · intro h
    repeat' split at h
    all_goals cases h
    all_goals
      rename_i heq
      rw [heq]
      decide
  · intro h
    simp only [accessConstants, List.mem_cons, Prod.mk.injEq, List.not_mem_nil, or_false] at h
    rcases h with ⟨rfl, rfl⟩ | ⟨rfl, rfl⟩ | ⟨rfl, rfl⟩ | ⟨rfl, rfl⟩ | ⟨rfl, rfl⟩ | ⟨rfl, rfl⟩
      | ⟨rfl, rfl⟩ | ⟨rfl, rfl⟩
    all_goals rfl

/-- `to_native` returns for the combinations of the enumerators. -/
theorem windowsToNative_returns_iff :
    (∃ native, windowsToNative flags = .ok native) ↔ flags < 8 := by
  constructor
  · rintro ⟨native, h⟩
    have htable : accessConstants.all (fun p => decide (p.1 < 8)) = true := by decide
    exact of_decide_eq_true (List.all_eq_true.mp htable _ (windowsToNative_eq_ok_iff.mp h))
  · intro hlt
    have hnat : flags.toNat < 8 := hlt
    obtain ⟨n, hn, rfl⟩ : ∃ n, n < 8 ∧ flags = BitVec.ofNat 32 n :=
      ⟨flags.toNat, hnat, (BitVec.ofNat_toNat 32 flags ▸ (BitVec.setWidth_eq flags).symm)⟩
    interval_cases n
    all_goals exact ⟨_, rfl⟩

/-- It throws for every other access value. -/
theorem windowsToNative_throws (h : ¬ flags < 8) :
    windowsToNative flags = .error (.logicError "unknown protection access combination") := by
  cases hrun : windowsToNative flags with
  | ok native => exact absurd (windowsToNative_returns_iff.mp ⟨native, hrun⟩) h
  | error e =>
      rw [windowsToNative] at hrun
      repeat' split at hrun
      all_goals cases hrun
      rfl

/-- The constant for the flags grants them, and reading beside writing, and
    `from_native` finds the flags again with reading added. -/
theorem windowsToNative_rights (h : windowsToNative flags = .ok native) :
    windowsRights native = readClosure (rights flags)
      ∧ windowsFromNative native = .ok (withRead flags) := by
  have htable : accessConstants.all (fun p =>
      decide (windowsFromNative p.2 = .ok (withRead p.1))) = true := by
    decide
  have hback := of_decide_eq_true (List.all_eq_true.mp htable _ (windowsToNative_eq_ok_iff.mp h))
  refine ⟨?_, hback⟩
  rw [(windowsFromNative_rights hback).2.1, rights_withRead]

/-- **From flags to a constant and back**: `to_native` throws for what is no
    combination of the enumerators, and otherwise gives a constant that grants the
    flags and as little else as any constant that grants them; `to_flags` of it
    gives the flags if and only if they do not have writing without reading. -/
theorem windowsFlags_roundTrip (flags : Access) :
    (¬ flags < 8 → windowsToNative flags
        = .error (.logicError "unknown protection access combination"))
      ∧ (flags < 8 → ∃ native, windowsToNative flags = .ok native
        ∧ rights flags ⊆ windowsRights native
        ∧ (∀ native', rights flags ⊆ windowsRights native' →
          windowsRights native ⊆ windowsRights native')
        ∧ (windowsFromNative native = .ok flags
          ↔ (.write ∈ rights flags → .read ∈ rights flags))) := by
  refine ⟨windowsToNative_throws, ?_⟩
  intro hlt
  obtain ⟨native, hnative⟩ := windowsToNative_returns_iff.mpr hlt
  obtain ⟨hrights, hback⟩ := windowsToNative_rights hnative
  refine ⟨native, hnative, ?_, ?_, ?_⟩
  · rw [hrights]
    exact readClosure.le_closure _
  · intro native' hle
    rw [hrights]
    exact readClosure.closure_min hle (windowsRights_isClosed native')
  · rw [hback, Except.ok.injEq]
    constructor
    · intro heq hw
      have hread : Right.read ∈ rights (withRead flags) := by
        rw [rights_withRead]
        exact Or.inr ⟨rfl, hw⟩
      rw [heq] at hread
      exact hread
    · intro hread
      have hlt' : withRead flags < 8 := (windowsFromNative_rights hback).1
      refine rights_injective hlt' hlt ?_
      rw [rights_withRead]
      refine readClosure.isClosed_iff.mp (readClosure.isClosed_iff_closure_le.mpr ?_)
      rintro a (ha | ⟨rfl, hw⟩)
      · exact ha
      · exact hread hw

/-- **From a constant to flags and back**: `to_flags` throws unless the constant
    without its modifiers is one of the eight; otherwise its flags say what the
    predicates say, and the constant of the flags grants the same rights and has
    lost the modifiers. -/
theorem windowsNative_roundTrip (native : NativeProtection) :
    (native &&& ~~~modifiers ∉ pageConstants.map Prod.fst →
        windowsFromNative native
          = .error ⟨"unknown protection constant: " ++ toString native.toNat⟩)
      ∧ (native &&& ~~~modifiers ∈ pageConstants.map Prod.fst →
        ∃ flags, windowsFromNative native = .ok flags ∧ windowsRights native = rights flags
          ∧ (windowsAccessible native = true ↔ flags ≠ 0)
          ∧ ∃ native', windowsToNative flags = .ok native'
            ∧ windowsRights native' = windowsRights native ∧ native' &&& modifiers = 0
            ∧ windowsFromNative native' = .ok flags) := by
  constructor
  · intro hnot
    cases hrun : windowsFromNative native with
    | ok flags =>
        exact absurd (List.mem_map_of_mem (windowsFromNative_eq_ok_iff.mp hrun)) hnot
    | error e =>
        rw [windowsFromNative] at hrun
        repeat' split at hrun
        all_goals cases hrun
        rfl
  · intro hmem
    obtain ⟨⟨masked, flags⟩, hpair, hmasked⟩ := List.mem_map.mp hmem
    obtain rfl : masked = native &&& ~~~modifiers := hmasked
    have hflags := windowsFromNative_eq_ok_iff.mpr hpair
    obtain ⟨hlt, hrights, haccessible⟩ := windowsFromNative_rights hflags
    obtain ⟨native', hnative'⟩ := windowsToNative_returns_iff.mpr hlt
    obtain ⟨hrights', hback⟩ := windowsToNative_rights hnative'
    have hsame : windowsRights native' = windowsRights native := by
      rw [hrights', ← hrights]
      exact (windowsRights_isClosed native).closure_eq
    have htable : accessConstants.all (fun p => decide (p.2 &&& modifiers = 0)) = true := by decide
    have hmodifiers := of_decide_eq_true
      (List.all_eq_true.mp htable _ (windowsToNative_eq_ok_iff.mp hnative'))
    refine ⟨flags, hflags, hrights, haccessible, native', hnative', hsame, hmodifiers, ?_⟩
    -- flags of a constant have reading beside writing
    obtain ⟨hlt', hrights'', -⟩ := windowsFromNative_rights hback
    rw [hback, rights_injective hlt' hlt (hrights''.symm.trans (hsame.trans hrights))]

end VmUtils
