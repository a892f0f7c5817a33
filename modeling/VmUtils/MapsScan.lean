import VmUtils.MapsListing

/-! # The scans at the record level

    The character loops of `query_impl` and `query_range_impl` on the text of a
    listing are scans of its records (`queryBody_follows`,
    `queryRangeBody_follows`, through the simulation rule of the line loop),
    closed by one more round that meets the end of the text with the locals of
    the last record. -/

namespace VmUtils

open TextStream HexText

variable {w : Nat}

/-- A round of `query_impl` that reads the bounds `b` and `e` and the
    characters `prot`. -/
def queryStep (w : Nat) (address : BitVec 64) (l : Locals) (b e : BitVec 64) (prot : ProtChars) :
    Except Exn (Round Locals (BasicRegion w)) :=
  if address < b then do
    let lo ← addressCast w l.endAddr
    let hi ← addressCast w b
    return .stop (BasicRegion.free lo hi)
  else if e < address then
    return .again { beginAddr := b, endAddr := e, prot := l.prot }
  else do
    let lo ← addressCast w b
    let hi ← addressCast w e
    return .stop (BasicRegion.mapped lo hi (transformProt prot) (prot 3 != '-'))

/-- A round of `query_range_impl` that reads `b`, `e` and `prot`. -/
def queryRangeStep (w : Nat) (first last : BitVec 64) (s : Locals × List (BasicRegion w))
    (b e : BitVec 64) (prot : ProtChars) :
    Except Exn (Round (Locals × List (BasicRegion w)) (List (BasicRegion w))) :=
  if last < b then return .stop s.2
  else if e < first then
    return .again ({ beginAddr := b, endAddr := e, prot := s.1.prot }, s.2)
  else do
    let lo ← addressCast w b
    let hi ← addressCast w e
    return .again ({ beginAddr := b, endAddr := e, prot := prot },
      s.2 ++ [BasicRegion.mapped lo hi (transformProt prot) (prot 3 != '-')])

/-- The scan of `query_impl` over records. -/
def queryScan (w : Nat) (address : BitVec 64) (lines : List MapsLine) (l : Locals) :
    Except Exn (Round Locals (BasicRegion w)) :=
  scanLines (fun l m => queryStep w address l m.beginAddr m.endAddr m.perms) lines l

/-- The scan of `query_range_impl` over records. -/
def queryRangeScan (w : Nat) (first last : BitVec 64) (lines : List MapsLine)
    (s : Locals × List (BasicRegion w)) :
    Except Exn (Round (Locals × List (BasicRegion w)) (List (BasicRegion w))) :=
  scanLines (fun s m => queryRangeStep w first last s m.beginAddr m.endAddr m.perms) lines s

/-- What `continue` leaves of a line holds no newline. -/
theorem perms_rest_ne (l : MapsLine) : '\n' ∉ ' ' :: (List.ofFn l.perms ++ ' ' :: l.rest) := by
  intro h
  simp only [List.mem_cons, List.mem_append, List.mem_ofFn] at h
  rcases h with h | ⟨i, hi⟩ | h | h
  · exact absurd h (by decide)
  · exact l.perms_ne i hi
  · exact absurd h (by decide)
  · exact l.rest_ne h

theorem rest_ne_newline (l : MapsLine) : '\n' ∉ ' ' :: l.rest := by
  intro h
  rcases List.mem_cons.mp h with h | h
  · exact absurd h (by decide)
  · exact l.rest_ne h

/-- Reading four characters gives back the permission characters. -/
theorem read_perms (t : Option Exn) (l : MapsLine) (tail : List Char) (buf : ProtChars) :
    (IStream.over t (List.ofFn l.perms ++ tail)).read buf
      = .ok (IStream.over t tail, l.perms) := by
  rw [read_eq t tail buf List.length_ofFn]
  have hbuf : (fun i : Fin 4 => (List.ofFn l.perms).get (i.cast List.length_ofFn.symm))
      = l.perms := by
    funext i
    rw [List.get_eq_getElem, List.getElem_ofFn]
    rfl
  rw [hbuf]

/-- The cursor behind the second bound, as a remainder of the line. -/
theorem perms_left (l : MapsLine) (tail : List Char) :
    ' ' :: (List.ofFn l.perms ++ (' ' :: l.rest ++ '\n' :: tail))
      = (' ' :: (List.ofFn l.perms ++ ' ' :: l.rest)) ++ '\n' :: tail := by
  simp only [List.cons_append, List.append_assoc]

theorem dash_stops : isHexDigit '-' = false ∧ '-' ≠ 'x' ∧ '-' ≠ 'X' := by decide

theorem space_stops : isHexDigit ' ' = false ∧ ' ' ≠ 'x' ∧ ' ' ≠ 'X' := by decide

theorem queryBody_follows (t : Option Exn) (address : BitVec 64) (l : Locals) (line : MapsLine)
    (tail : List Char) :
    Follows t tail (queryBody w address (IStream.over t (line.text ++ '\n' :: tail)) l)
      (queryStep w address l line.beginAddr line.endAddr line.perms) := by
  obtain ⟨hd, hdx, hdX⟩ := dash_stops
  obtain ⟨hs, hsx, hsX⟩ := space_stops
  rw [text_append]
  simp only [queryBody, queryStep, bind, Except.bind,
    extractHex_paddedHex t 8 line.beginAddr l.beginAddr _ hd hdx hdX]
  by_cases hb : address < line.beginAddr
  · rw [if_pos hb, if_pos hb]
    cases addressCast w l.endAddr with
    | error e => exact Follows.error e
    | ok lo =>
        cases addressCast w line.beginAddr with
        | error e => exact Follows.error e
        | ok hi => exact Follows.stop _
  · rw [if_neg hb, if_neg hb]
    simp only [ignore_eq, extractHex_paddedHex t 8 line.endAddr l.endAddr _ hs hsx hsX]
    by_cases he : line.endAddr < address
    · rw [if_pos he, if_pos he]
      rw [perms_left]
      exact Follows.again _ _ (perms_rest_ne line)
    · rw [if_neg he, if_neg he]
      simp only [read_perms]
      cases addressCast w line.beginAddr with
      | error e => exact Follows.error e
      | ok lo =>
          cases addressCast w line.endAddr with
          | error e => exact Follows.error e
          | ok hi => exact Follows.stop _

theorem queryRangeBody_follows (t : Option Exn) (first last : BitVec 64)
    (s : Locals × List (BasicRegion w)) (line : MapsLine) (tail : List Char) :
    Follows t tail (queryRangeBody w first last (IStream.over t (line.text ++ '\n' :: tail)) s)
      (queryRangeStep w first last s line.beginAddr line.endAddr line.perms) := by
  obtain ⟨hd, hdx, hdX⟩ := dash_stops
  obtain ⟨hs, hsx, hsX⟩ := space_stops
  rw [text_append]
  simp only [queryRangeBody, queryRangeStep, bind, Except.bind,
    extractHex_paddedHex t 8 line.beginAddr s.1.beginAddr _ hd hdx hdX]
  by_cases hb : last < line.beginAddr
  · rw [if_pos hb, if_pos hb]
    exact Follows.stop _
  · rw [if_neg hb, if_neg hb]
    simp only [ignore_eq, extractHex_paddedHex t 8 line.endAddr s.1.endAddr _ hs hsx hsX]
    by_cases he : line.endAddr < first
    · rw [if_pos he, if_pos he, perms_left]
      exact Follows.again _ _ (perms_rest_ne line)
    · rw [if_neg he, if_neg he]
      simp only [read_perms]
      cases addressCast w line.beginAddr with
      | error e => exact Follows.error e
      | ok lo =>
          cases addressCast w line.endAddr with
          | error e => exact Follows.error e
          | ok hi => exact Follows.again _ _ (rest_ne_newline line)

/-! ## The round at the end of the text

    Every extraction fails and leaves its target alone, so the round works on
    the values of the last record once more. -/

theorem queryBody_eof (address : BitVec 64) (l : Locals) :
    queryBody w address (IStream.over none []) l
      = (queryStep w address l l.beginAddr l.endAddr l.prot).map
          (Round.mapAgain (fun l' => (IStream.failed, l'))) := by
  simp only [queryBody, queryStep, bind, Except.bind, extractHex_nil, ignore_failed,
    extractHex_failed, read_failed]
  by_cases hb : address < l.beginAddr
  · rw [if_pos hb, if_pos hb]
    cases addressCast w l.endAddr with
    | error e => rfl
    | ok lo => cases addressCast w l.beginAddr <;> rfl
  · rw [if_neg hb, if_neg hb]
    by_cases he : l.endAddr < address
    · rw [if_pos he, if_pos he]
      rfl
    · rw [if_neg he, if_neg he]
      cases addressCast w l.beginAddr with
      | error e => rfl
      | ok lo => cases addressCast w l.endAddr <;> rfl

theorem queryRangeBody_eof (first last : BitVec 64) (s : Locals × List (BasicRegion w)) :
    queryRangeBody w first last (IStream.over none []) s
      = (queryRangeStep w first last s s.1.beginAddr s.1.endAddr s.1.prot).map
          (Round.mapAgain (fun s' => (IStream.failed, s'))) := by
  simp only [queryRangeBody, queryRangeStep, bind, Except.bind, extractHex_nil, ignore_failed,
    extractHex_failed, read_failed]
  by_cases hb : last < s.1.beginAddr
  · rw [if_pos hb, if_pos hb]
    rfl
  · rw [if_neg hb, if_neg hb]
    by_cases he : s.1.endAddr < first
    · rw [if_pos he, if_pos he]
      rfl
    · rw [if_neg he, if_neg he]
      cases addressCast w s.1.beginAddr with
      | error e => rfl
      | ok lo => cases addressCast w s.1.endAddr <;> rfl

theorem queryLoop_scan (t : Option Exn) (address : BitVec 64) (lines : List MapsLine)
    (l : Locals) :
    forLines (queryLoop w address) (IStream.over t (mapsText lines)) l
      = followedBy (queryScan w address lines l)
          (fun l' => forLines (queryLoop w address) (IStream.over t []) l') :=
  forLines_text (queryLoop w address) t MapsLine.text _ (queryBody_follows t address) lines l

theorem queryRangeLoop_scan (t : Option Exn) (first last : BitVec 64) (lines : List MapsLine)
    (s : Locals × List (BasicRegion w)) :
    forLines (queryRangeLoop w first last) (IStream.over t (mapsText lines)) s
      = followedBy (queryRangeScan w first last lines s)
          (fun s' => forLines (queryRangeLoop w first last) (IStream.over t []) s') :=
  forLines_text (queryRangeLoop w first last) t MapsLine.text _
    (queryRangeBody_follows t first last) lines s

/-- **`query_impl` on a listing, errors reported in `ec`.**  The scan of the
    records, then a round on the values it left. -/
theorem queryLoop_text (address : BitVec 64) (lines : List MapsLine) (l : Locals) :
    forLines (queryLoop w address) (IStream.over none (mapsText lines)) l
      = followedBy (queryScan w address lines l)
          (fun l' => queryStep w address l' l'.beginAddr l'.endAddr l'.prot) := by
  rw [queryLoop_scan]
  congr 1
  funext l'
  exact forLines_eof _ l' _ (queryBody_eof address l')

/-- **`query_impl` on a listing, with exceptions enabled.**  Meeting the end of
    the text throws. -/
theorem queryLoop_text_throws (address : BitVec 64) (lines : List MapsLine) (l : Locals) :
    forLines (queryLoop w address) (IStream.over (some .iosFailure) (mapsText lines)) l
      = followedBy (queryScan w address lines l) (fun _ => .error .iosFailure) := by
  rw [queryLoop_scan]
  congr 1
  funext l'
  exact forLines_of_error _ rfl rfl

/-- **`query_range_impl` on a listing, errors reported in `ec`.** -/
theorem queryRangeLoop_text (first last : BitVec 64) (lines : List MapsLine)
    (s : Locals × List (BasicRegion w)) :
    forLines (queryRangeLoop w first last) (IStream.over none (mapsText lines)) s
      = followedBy (queryRangeScan w first last lines s)
          (fun s' => queryRangeStep w first last s' s'.1.beginAddr s'.1.endAddr s'.1.prot) := by
  rw [queryRangeLoop_scan]
  congr 1
  funext s'
  exact forLines_eof _ s' _ (queryRangeBody_eof first last s')

/-- **`query_range_impl` on a listing, with exceptions enabled.** -/
theorem queryRangeLoop_text_throws (first last : BitVec 64) (lines : List MapsLine)
    (s : Locals × List (BasicRegion w)) :
    forLines (queryRangeLoop w first last)
        (IStream.over (some .iosFailure) (mapsText lines)) s
      = followedBy (queryRangeScan w first last lines s) (fun _ => .error .iosFailure) := by
  rw [queryRangeLoop_scan]
  congr 1
  funext s'
  exact forLines_of_error _ rfl rfl

end VmUtils
