import VmUtils.Lib.HexText

/-! # Character input streams with C++11 semantics

    A stream is the unread text, the two error flags a text source can set, and
    the exception (if any) that setting `failbit` raises.  The operations are
    the four a scanner of line-oriented text needs: hexadecimal extraction,
    `ignore` of one character, `ignore` up to a delimiter, and `read` into a
    fixed buffer.

    Each operation follows the sentry rule: on a stream that is not `good` it
    sets `failbit` and leaves its target untouched.  On a good stream whose
    text starts with what the operation looks for, the `_eq` lemmas give the
    result exactly; every operation at most shortens the text
    (`budget` below), which is what a reading loop terminates by. -/

namespace TextStream

open HexText

/-- An input stream.  `throws` is the exception raised when `failbit` is set,
    `none` when `exceptions()` does not enable it. -/
structure IStream (ε : Type) where
  rest : List Char
  eofbit : Bool := false
  failbit : Bool := false
  throws : Option ε := none

variable {ε : Type} {w n : Nat}

/-- `good()`: no flag is set. -/
def IStream.good (s : IStream ε) : Bool := !s.eofbit && !s.failbit

/-- `setstate(failbit)`, raising the enabled exception. -/
def IStream.setFail (s : IStream ε) : Except ε (IStream ε) :=
  match s.throws with
  | some e => .error e
  | none => .ok { s with failbit := true }

/-- White space of the classic locale. -/
def isSpace (c : Char) : Bool :=
  c = ' ' || c = '\t' || c = '\n' || c = '\x0b' || c = '\x0c' || c = '\r'

/-- An optional sign in front of a number; `true` for a minus. -/
def stripSign : List Char → Bool × List Char
  | '-' :: cs => (true, cs)
  | '+' :: cs => (false, cs)
  | cs => (false, cs)

/-- An optional `0x` in front of a hexadecimal number. -/
def stripRadix : List Char → List Char
  | '0' :: 'x' :: cs => cs
  | '0' :: 'X' :: cs => cs
  | cs => cs

/-- The unsigned conversion of a digit run: `0` and failure without digits,
    the maximum and failure on overflow. -/
def convert (w : Nat) (negative : Bool) (digits : List Char) : BitVec w × Bool :=
  if digits = [] then (0#w, false)
  else if 2 ^ w ≤ hexValue digits then (BitVec.allOnes w, false)
  else
    let v := BitVec.ofNat w (hexValue digits)
    (if negative then -v else v, true)

/-- The number field at the front of a text: its value, whether the conversion
    succeeded, and the text behind it. -/
def hexField (w : Nat) (text : List Char) : BitVec w × Bool × List Char :=
  let signed := stripSign text
  let text := stripRadix signed.2
  let value := convert w signed.1 (text.takeWhile isHexDigit)
  (value.1, value.2, text.dropWhile isHexDigit)

/-- `in >> std::hex >> target` for an unsigned target of `w` bits. -/
def IStream.extractHex (s : IStream ε) (target : BitVec w) :
    Except ε (IStream ε × BitVec w) :=
  if !s.good then do
    let s ← s.setFail
    return (s, target)
  else
    match s.rest.dropWhile isSpace with
    | [] => do
        let s ← IStream.setFail { s with rest := [], eofbit := true }
        return (s, target)
    | c :: cs =>
        let (v, ok, after) := hexField w (c :: cs)
        let s := { s with rest := after, eofbit := after.isEmpty }
        if ok then return (s, v)
        else do
          let s ← s.setFail
          return (s, v)

/-- `in.ignore()`: discard one character.  The end of the text sets `eofbit`
    only. -/
def IStream.ignore (s : IStream ε) : Except ε (IStream ε) :=
  if !s.good then s.setFail
  else
    match s.rest with
    | [] => .ok { s with eofbit := true }
    | _ :: cs => .ok { s with rest := cs }

/-- `in.ignore(max, delim)`: discard up to and including `delim`. -/
def IStream.ignoreTo (s : IStream ε) (delim : Char) : Except ε (IStream ε) :=
  if !s.good then s.setFail
  else
    match s.rest.dropWhile (· != delim) with
    | [] => .ok { s with rest := [], eofbit := true }
    | _ :: cs => .ok { s with rest := cs }

/-- `in.read(buf, n)`: a short text fills the front of the buffer and sets
    both flags. -/
def IStream.read (s : IStream ε) (buf : Fin n → Char) :
    Except ε (IStream ε × (Fin n → Char)) :=
  if !s.good then do
    let s ← s.setFail
    return (s, buf)
  else
    let filled : Fin n → Char := fun i => s.rest.getD i (buf i)
    let after := { s with rest := s.rest.drop n }
    if s.rest.length < n then do
      let s ← IStream.setFail { after with eofbit := true }
      return (s, filled)
    else return (after, filled)

/-! ## A good stream in front of the expected text -/

/-- A good stream over `text`. -/
def IStream.over (throws : Option ε) (text : List Char) : IStream ε :=
  { rest := text, throws := throws }

@[simp] theorem over_failbit (t : Option ε) (text : List Char) :
    (IStream.over t text).failbit = false := rfl

/-- A digit is none of the characters that end or modify a number. -/
theorem isHexDigit_ne {c : Char} (h : isHexDigit c = true) :
    isSpace c = false ∧ c ≠ '-' ∧ c ≠ '+' ∧ c ≠ 'x' ∧ c ≠ 'X' := by
  refine ⟨?_, ?_, ?_, ?_, ?_⟩
  · cases hs : isSpace c with
    | false => rfl
    | true =>
        simp only [isSpace, Bool.or_eq_true, decide_eq_true_eq] at hs
        rcases hs with ((((rfl | rfl) | rfl) | rfl) | rfl) | rfl <;> exact absurd h (by decide)
  all_goals
    rintro rfl
    exact absurd h (by decide)

theorem stripSign_of_digit {c : Char} (cs : List Char) (h : isHexDigit c = true) :
    stripSign (c :: cs) = (false, c :: cs) := by
  obtain ⟨-, hm, hp, -, -⟩ := isHexDigit_ne h
  unfold stripSign
  split
  · rename_i heq
    exact absurd (List.cons.inj heq).1 hm
  · rename_i heq
    exact absurd (List.cons.inj heq).1 hp
  · rfl

theorem stripRadix_of_second {c d : Char} (cs : List Char) (hx : d ≠ 'x') (hX : d ≠ 'X') :
    stripRadix (c :: d :: cs) = c :: d :: cs := by
  unfold stripRadix
  split
  · rename_i heq
    exact absurd (List.cons.inj (List.cons.inj heq).2).1 hx
  · rename_i heq
    exact absurd (List.cons.inj (List.cons.inj heq).2).1 hX
  · rfl

/-- A run of digits in front of a stopping character is not a radix mark. -/
theorem stripRadix_of_digits {digits : List Char} (tail : List Char) {stop : Char}
    (hne : digits ≠ []) (hd : ∀ c ∈ digits, isHexDigit c = true)
    (hx : stop ≠ 'x') (hX : stop ≠ 'X') :
    stripRadix (digits ++ stop :: tail) = digits ++ stop :: tail := by
  match digits, hne with
  | [c], _ => exact stripRadix_of_second tail hx hX
  | c :: d :: cs, _ =>
      obtain ⟨-, -, -, h4, h5⟩ := isHexDigit_ne (hd d (by simp))
      exact stripRadix_of_second (cs ++ stop :: tail) h4 h5

/-- Maximal munch of a digit run in front of a stopping character. -/
theorem takeWhile_digits {digits : List Char} (tail : List Char) {stop : Char}
    (hd : ∀ c ∈ digits, isHexDigit c = true) (hs : isHexDigit stop = false) :
    (digits ++ stop :: tail).takeWhile isHexDigit = digits
      ∧ (digits ++ stop :: tail).dropWhile isHexDigit = stop :: tail := by
  constructor
  · rw [List.takeWhile_append_of_pos hd]
    simp [hs]
  · rw [List.dropWhile_append_of_pos hd]
    simp [hs]

/-- A digit run in front of a stopping character is read whole. -/
theorem hexField_eq {digits : List Char} (tail : List Char) {stop : Char}
    (hne : digits ≠ []) (hd : ∀ c ∈ digits, isHexDigit c = true)
    (hs : isHexDigit stop = false) (hx : stop ≠ 'x') (hX : stop ≠ 'X')
    (hv : hexValue digits < 2 ^ w) :
    hexField w (digits ++ stop :: tail)
      = (BitVec.ofNat w (hexValue digits), true, stop :: tail) := by
  obtain ⟨htake, hdrop⟩ := takeWhile_digits tail hd hs
  have hsign : stripSign (digits ++ stop :: tail) = (false, digits ++ stop :: tail) := by
    obtain ⟨c, cs, rfl⟩ := List.exists_cons_of_ne_nil hne
    exact stripSign_of_digit _ (hd c (List.mem_cons_self ..))
  have hconv : convert w false digits = (BitVec.ofNat w (hexValue digits), true) := by
    rw [convert, if_neg hne, if_neg (by omega)]
    rfl
  simp only [hexField, hsign, stripRadix_of_digits tail hne hd hx hX, htake, hdrop, hconv]

/-- Hexadecimal extraction reads a digit run and stops in front of the next
    character. -/
theorem extractHex_eq (t : Option ε) {digits tail : List Char} {stop : Char}
    (target : BitVec w) (hne : digits ≠ []) (hd : ∀ c ∈ digits, isHexDigit c = true)
    (hs : isHexDigit stop = false) (hx : stop ≠ 'x') (hX : stop ≠ 'X')
    (hv : hexValue digits < 2 ^ w) :
    (IStream.over t (digits ++ stop :: tail)).extractHex target
      = .ok (IStream.over t (stop :: tail), BitVec.ofNat w (hexValue digits)) := by
  have hfield := hexField_eq tail hne hd hs hx hX hv
  obtain ⟨c, cs, rfl⟩ := List.exists_cons_of_ne_nil hne
  have hskip : (c :: cs ++ stop :: tail).dropWhile isSpace = c :: (cs ++ stop :: tail) := by
    simp [(isHexDigit_ne (hd c (List.mem_cons_self ..))).1]
  rw [List.cons_append] at hfield
  simp only [IStream.extractHex, IStream.over, IStream.good, hskip, hfield]
  rfl

/-- Extraction reads back the padded text of a number. -/
theorem extractHex_paddedHex (t : Option ε) (width : Nat) (v target : BitVec w) (tail : List Char)
    {stop : Char} (hs : isHexDigit stop = false) (hx : stop ≠ 'x') (hX : stop ≠ 'X') :
    (IStream.over t (paddedHex width v.toNat ++ stop :: tail)).extractHex target
      = .ok (IStream.over t (stop :: tail), v) := by
  have hv : hexValue (paddedHex width v.toNat) = v.toNat := hexValue_paddedHex width v.toNat
  rw [extractHex_eq t target (paddedHex_ne_nil width v.toNat) isHexDigit_of_mem_paddedHex
    hs hx hX (by rw [hv]; exact v.isLt), hv, BitVec.ofNat_toNat, BitVec.setWidth_eq]

theorem ignore_eq (t : Option ε) (c : Char) (tail : List Char) :
    (IStream.over t (c :: tail)).ignore = .ok (IStream.over t tail) := rfl

/-- `ignore` up to a delimiter stops behind its first occurrence. -/
theorem ignoreTo_eq (t : Option ε) {text tail : List Char} {delim : Char}
    (h : delim ∉ text) :
    (IStream.over t (text ++ delim :: tail)).ignoreTo delim = .ok (IStream.over t tail) := by
  have hpos : ∀ c ∈ text, (c != delim) = true := by
    intro c hc
    simp only [bne_iff_ne, ne_eq]
    rintro rfl
    exact h hc
  have hdrop : (text ++ delim :: tail).dropWhile (· != delim) = delim :: tail := by
    rw [List.dropWhile_append_of_pos hpos]
    simp
  simp only [IStream.ignoreTo, IStream.over, IStream.good, hdrop]
  rfl

/-- `read` fills the buffer from the front of the text. -/
theorem read_eq (t : Option ε) {chars : List Char} (tail : List Char) (buf : Fin n → Char)
    (h : chars.length = n) :
    (IStream.over t (chars ++ tail)).read buf
      = .ok (IStream.over t tail, fun i => chars.get (i.cast h.symm)) := by
  have hlen : ¬ (chars ++ tail).length < n := by
    rw [List.length_append]
    omega
  have hfill : (fun i : Fin n => (chars ++ tail).getD i (buf i))
      = fun i => chars.get (i.cast h.symm) := by
    funext i
    have hi : i.val < chars.length := by omega
    simp [List.getD_eq_getElem?_getD, List.getElem?_append_left hi, List.getElem?_eq_getElem hi]
  have hdrop : (chars ++ tail).drop n = tail := by
    rw [← h, List.drop_left]
  simp only [IStream.read, IStream.over, IStream.good, if_neg hlen, hfill, hdrop]
  rfl

/-! ## Streams at the end of the text -/

/-- A non-throwing stream whose extraction failed at the end of the text. -/
def IStream.failed : IStream ε := { rest := [], eofbit := true, failbit := true }

/-- Extraction at the end of the text fails and leaves its target unchanged. -/
theorem extractHex_nil (target : BitVec w) :
    (IStream.over (none : Option ε) []).extractHex target = .ok (IStream.failed, target) := rfl

theorem extractHex_failed (target : BitVec w) :
    (IStream.failed : IStream ε).extractHex target = .ok (IStream.failed, target) := rfl

theorem ignore_failed : (IStream.failed : IStream ε).ignore = .ok IStream.failed := rfl

theorem ignoreTo_failed (delim : Char) :
    (IStream.failed : IStream ε).ignoreTo delim = .ok IStream.failed := rfl

theorem read_failed (buf : Fin n → Char) :
    (IStream.failed : IStream ε).read buf = .ok (IStream.failed, buf) := rfl

/-! ## The reading budget

    A loop `for (; in; …)` that extracts a number in every round ends: the
    extraction either fails the stream or consumes text, and the other
    operations never give text back. -/

/-- Rounds a reading loop can still start. -/
def IStream.budget (s : IStream ε) : Nat := if s.failbit then 0 else s.rest.length + 1

theorem setFail_budget {s s' : IStream ε} (h : s.setFail = .ok s') : s'.budget = 0 := by
  unfold IStream.setFail at h
  split at h
  · exact nomatch h
  · rw [← Except.ok.inj h]
    rfl

theorem budget_le_of_length {s s' : IStream ε} (hf : s'.failbit = s.failbit)
    (hl : s'.rest.length ≤ s.rest.length) : s'.budget ≤ s.budget := by
  unfold IStream.budget
  rw [hf]
  split <;> omega

theorem ignore_budget {s s' : IStream ε} (h : s.ignore = .ok s') : s'.budget ≤ s.budget := by
  unfold IStream.ignore at h
  split at h
  · rw [setFail_budget h]
    exact Nat.zero_le _
  · split at h
    · rw [← Except.ok.inj h]
      exact budget_le_of_length rfl (Nat.le_refl _)
    · rename_i c cs hr
      rw [← Except.ok.inj h]
      exact budget_le_of_length rfl (by simp [hr])

theorem ignoreTo_budget {s s' : IStream ε} {delim : Char} (h : s.ignoreTo delim = .ok s') :
    s'.budget ≤ s.budget := by
  unfold IStream.ignoreTo at h
  split at h
  · rw [setFail_budget h]
    exact Nat.zero_le _
  · split at h
    · rw [← Except.ok.inj h]
      exact budget_le_of_length rfl (Nat.zero_le _)
    · rename_i c cs hr
      rw [← Except.ok.inj h]
      have hlen : (s.rest.dropWhile (· != delim)).length ≤ s.rest.length :=
        (List.dropWhile_sublist _).length_le
      rw [hr, List.length_cons] at hlen
      exact budget_le_of_length rfl (Nat.le_of_succ_le hlen)

/-- A read that sets `failbit` and hands on `x` leaves no budget. -/
theorem setFail_return_budget {β : Type} {s s' : IStream ε} {x y : β}
    (h : (do let s ← s.setFail; return (s, x) : Except ε (IStream ε × β)) = .ok (s', y)) :
    s'.budget = 0 := by
  cases hs : s.setFail with
  | error e =>
      rw [hs] at h
      exact nomatch h
  | ok r =>
      rw [hs] at h
      rw [← (Prod.mk.inj (Except.ok.inj h)).1, setFail_budget hs]

theorem read_budget {s s' : IStream ε} {buf buf' : Fin n → Char}
    (h : s.read buf = .ok (s', buf')) : s'.budget ≤ s.budget := by
  unfold IStream.read at h
  split at h
  · rw [setFail_return_budget h]
    exact Nat.zero_le _
  · split at h
    · rw [setFail_return_budget h]
      exact Nat.zero_le _
    · rw [← (Prod.mk.inj (Except.ok.inj h)).1]
      exact budget_le_of_length rfl (by simp)

theorem stripSign_length (text : List Char) : (stripSign text).2.length ≤ text.length := by
  unfold stripSign
  split <;> simp

theorem stripRadix_length (text : List Char) : (stripRadix text).length ≤ text.length := by
  unfold stripRadix
  split
  · exact Nat.le_trans (Nat.le_succ _) (Nat.le_succ _)
  · exact Nat.le_trans (Nat.le_succ _) (Nat.le_succ _)
  · exact Nat.le_refl _

/-- A successful conversion consumed at least one digit. -/
theorem hexField_length {text after : List Char} {v : BitVec w}
    (h : hexField w text = (v, true, after)) : after.length < text.length := by
  have hconv : (convert w (stripSign text).1
      ((stripRadix (stripSign text).2).takeWhile isHexDigit)).2 = true :=
    congrArg (fun r => r.2.1) h
  have hafter : (stripRadix (stripSign text).2).dropWhile isHexDigit = after :=
    congrArg (fun r => r.2.2) h
  -- `convert` fails on an empty run
  have hne : (stripRadix (stripSign text).2).takeWhile isHexDigit ≠ [] := by
    intro hnil
    rw [hnil] at hconv
    exact nomatch hconv
  have hsplit : ((stripRadix (stripSign text).2).takeWhile isHexDigit
      ++ (stripRadix (stripSign text).2).dropWhile isHexDigit).length
      = (stripRadix (stripSign text).2).length := by
    rw [List.takeWhile_append_dropWhile]
  have hpos := List.length_pos_of_ne_nil hne
  have h1 := stripSign_length text
  have h2 := stripRadix_length (stripSign text).2
  rw [List.length_append, hafter] at hsplit
  omega

/-- On a stream that has not failed, extraction uses up budget. -/
theorem extractHex_budget {s s' : IStream ε} {target v : BitVec w}
    (hs : s.failbit = false) (h : s.extractHex target = .ok (s', v)) :
    s'.budget < s.budget := by
  have hpos : 0 < s.budget := by
    rw [IStream.budget, hs]
    exact Nat.succ_pos _
  unfold IStream.extractHex at h
  split at h
  · rw [setFail_return_budget h]
    exact hpos
  · split at h
    · rw [setFail_return_budget h]
      exact hpos
    · rename_i c cs hcs
      rcases hfield : hexField w (c :: cs) with ⟨u, ok, after⟩
      rw [hfield] at h
      cases ok with
      | false =>
          rw [setFail_return_budget h]
          exact hpos
      | true =>
          rw [← (Prod.mk.inj (Except.ok.inj h)).1]
          have hlt := hexField_length hfield
          have hle : (s.rest.dropWhile isSpace).length ≤ s.rest.length :=
            (List.dropWhile_sublist _).length_le
          rw [hcs] at hle
          simp only [IStream.budget, hs]
          show after.length + 1 < s.rest.length + 1
          omega

/-- Extraction never gives budget back. -/
theorem extractHex_budget_le {s s' : IStream ε} {target v : BitVec w}
    (h : s.extractHex target = .ok (s', v)) : s'.budget ≤ s.budget := by
  cases hs : s.failbit with
  | false => exact Nat.le_of_lt (extractHex_budget hs h)
  | true =>
      have hg : s.good = false := by simp [IStream.good, hs]
      rw [IStream.extractHex, hg] at h
      rw [setFail_return_budget h]
      exact Nat.zero_le _

end TextStream
