import VmUtils.LinuxQuery

/-! # Listings of `/proc/<pid>/maps`

    A line is a record of two bounds, four permission characters and trailing
    text; the kernel writes it as `<begin>-<end> <perms> <rest>` with at least
    eight hexadecimal digits.  A `Listing` carries the well-formedness the
    kernel guarantees: nonempty lines in ascending order without overlap, and
    permission characters of the kernel's form. -/

namespace VmUtils

open TextStream HexText

/-- One line of a listing.  No character of it is a newline. -/
structure MapsLine where
  beginAddr : BitVec 64
  endAddr : BitVec 64
  perms : ProtChars
  rest : List Char
  perms_ne : ∀ i, perms i ≠ '\n'
  rest_ne : '\n' ∉ rest

/-- `<begin>-<end> <perms> <rest>`. -/
def MapsLine.text (l : MapsLine) : List Char :=
  paddedHex 8 l.beginAddr.toNat ++ '-' :: (paddedHex 8 l.endAddr.toNat
    ++ ' ' :: (List.ofFn l.perms ++ ' ' :: l.rest))

/-- The text of a listing. -/
def mapsText (lines : List MapsLine) : List Char := renderLines MapsLine.text lines

/-- The address range of a line contains `a`. -/
def MapsLine.Contains (l : MapsLine) (a : BitVec 64) : Prop := l.beginAddr ≤ a ∧ a < l.endAddr

instance (l : MapsLine) (a : BitVec 64) : Decidable (l.Contains a) :=
  inferInstanceAs (Decidable (_ ∧ _))

/-- The protection a line stands for: `r`, `w` and `x` in their places. -/
def MapsLine.protection (l : MapsLine) : Protection :=
  ⟨boolToInt (l.perms 0 == 'r') * accessRead ||| boolToInt (l.perms 1 == 'w') * accessWrite
    ||| boolToInt (l.perms 2 == 'x') * accessExec⟩

/-- Permission characters as the kernel writes them. -/
structure MapsLine.KernelPerms (l : MapsLine) : Prop where
  read : l.perms 0 = 'r' ∨ l.perms 0 = '-'
  write : l.perms 1 = 'w' ∨ l.perms 1 = '-'
  exec : l.perms 2 = 'x' ∨ l.perms 2 = '-'
  share : l.perms 3 = 'p' ∨ l.perms 3 = 's'

/-- On kernel-form characters the scanner's test for `-` reads the protection. -/
theorem transformProt_eq {l : MapsLine} (h : l.KernelPerms) :
    transformProt l.perms = l.protection := by
  obtain ⟨hr, hw, hx, -⟩ := h
  rcases hr with hr | hr <;> rcases hw with hw | hw <;> rcases hx with hx | hx <;>
    simp [transformProt, MapsLine.protection, hr, hw, hx, boolToInt, accessRead, accessWrite,
      accessExec]

/-- The bits of a line's protection are its three characters. -/
theorem protection_bits (l : MapsLine) :
    l.protection.readable = (l.perms 0 == 'r') ∧ l.protection.writable = (l.perms 1 == 'w')
      ∧ l.protection.executable = (l.perms 2 == 'x') := by
  rw [MapsLine.protection]
  cases l.perms 0 == 'r' <;> cases l.perms 1 == 'w' <;> cases l.perms 2 == 'x' <;> decide

theorem protection_isRwx (l : MapsLine) : l.protection.IsRwx := by
  rw [MapsLine.protection]
  cases l.perms 0 == 'r' <;> cases l.perms 1 == 'w' <;> cases l.perms 2 == 'x' <;> decide

/-- A well-formed listing, possibly empty. -/
structure Listing where
  lines : List MapsLine
  begin_lt_end : ∀ l ∈ lines, l.beginAddr < l.endAddr
  sorted : lines.Pairwise (fun l l' => l.endAddr ≤ l'.beginAddr)
  kernelPerms : ∀ l ∈ lines, l.KernelPerms

/-- The text of a listing, as the kernel serves it. -/
def Listing.text (L : Listing) : List Char := mapsText L.lines

theorem Listing.text_of_nil (L : Listing) (h : L.lines = []) : L.text = mapsText [] := by
  rw [Listing.text, h]

/-- A page size of the operating system: a power of two of at least two bytes. -/
structure PageSize where
  shift : Nat
  pos : 0 < shift
  lt : shift < 64

def PageSize.bytes (ps : PageSize) : Nat := 2 ^ ps.shift

theorem PageSize.one_lt (ps : PageSize) : 1 < ps.bytes :=
  Nat.one_lt_two_pow (Nat.ne_of_gt ps.pos)

/-- Every bound of the listing is a multiple of the page size. -/
structure Listing.PageAligned (L : Listing) (ps : PageSize) : Prop where
  begin_dvd : ∀ l ∈ L.lines, ps.bytes ∣ l.beginAddr.toNat
  end_dvd : ∀ l ∈ L.lines, ps.bytes ∣ l.endAddr.toNat

/-- Behind an aligned address there is room for one more byte. -/
theorem PageSize.succ_lt (ps : PageSize) {x : BitVec 64} (h : ps.bytes ∣ x.toNat) :
    x.toNat + 1 < 2 ^ 64 := by
  have hdvd : ps.bytes ∣ 2 ^ 64 := Nat.pow_dvd_pow 2 (Nat.le_of_lt ps.lt)
  have hone := ps.one_lt
  have hlt := x.isLt
  obtain ⟨i, hi⟩ := h
  obtain ⟨n, hn⟩ := hdvd
  by_contra hge
  -- otherwise the page size divides both neighbours, hence one
  have heq : x.toNat + 1 = 2 ^ 64 := by omega
  have hdiv : ps.bytes ∣ 1 := by
    refine (Nat.dvd_add_right ⟨i, hi⟩).mp ?_
    exact ⟨n, by rw [heq, hn]⟩
  have := Nat.le_of_dvd Nat.one_pos hdiv
  omega

/-- The region a query builds from a line. -/
def MapsLine.region (l : MapsLine) : BasicRegion 64 :=
  BasicRegion.mapped l.beginAddr l.endAddr (transformProt l.perms) (l.perms 3 != '-')

@[simp] theorem region_begin (l : MapsLine) : l.region.begin = l.beginAddr := rfl

@[simp] theorem region_end (l : MapsLine) : l.region.end = l.endAddr + 1 := rfl

/-- The permission characters of the kernel. -/
def permChars (r w x s : Bool) : ProtChars := fun i =>
  match i with
  | 0 => if r then 'r' else '-'
  | 1 => if w then 'w' else '-'
  | 2 => if x then 'x' else '-'
  | 3 => if s then 's' else 'p'

theorem permChars_ne : ∀ (r w x s : Bool) (i : Fin 4), permChars r w x s i ≠ '\n' := by decide

/-- The line the kernel writes for a mapping without a file behind it. -/
def MapsLine.anonymous (beginAddr endAddr : BitVec 64) (r w x s : Bool) : MapsLine where
  beginAddr := beginAddr
  endAddr := endAddr
  perms := permChars r w x s
  rest := "00000000 00:00 0".toList
  perms_ne := permChars_ne r w x s
  rest_ne := by decide

theorem anonymous_kernelPerms (b e : BitVec 64) (r w x s : Bool) :
    (MapsLine.anonymous b e r w x s).KernelPerms := by
  refine ⟨?_, ?_, ?_, ?_⟩
  · cases r
    · exact Or.inr rfl
    · exact Or.inl rfl
  · cases w
    · exact Or.inr rfl
    · exact Or.inl rfl
  · cases x
    · exact Or.inr rfl
    · exact Or.inl rfl
  · cases s
    · exact Or.inl rfl
    · exact Or.inr rfl

/-- Two adjacent mappings with different protections, a gap, a third one. -/
def sampleListing : Listing where
  lines := [.anonymous 0x1000 0x2000 true false false false,
    .anonymous 0x2000 0x4000 true true false false,
    .anonymous 0x8000 0x9000 true false true false]
  begin_lt_end := by decide
  sorted := by decide
  kernelPerms := by
    intro l hl
    simp only [List.mem_cons, List.not_mem_nil, or_false] at hl
    rcases hl with rfl | rfl | rfl <;> exact anonymous_kernelPerms ..

/-- The text of a line in front of the rest of the file. -/
theorem text_append (l : MapsLine) (tail : List Char) :
    l.text ++ '\n' :: tail
      = paddedHex 8 l.beginAddr.toNat ++ '-' :: (paddedHex 8 l.endAddr.toNat
          ++ ' ' :: (List.ofFn l.perms ++ (' ' :: l.rest ++ '\n' :: tail))) := by
  simp [MapsLine.text]

end VmUtils
