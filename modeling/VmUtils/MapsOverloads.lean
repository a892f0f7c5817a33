import VmUtils.LinuxQuery
import VmUtils.Lib.HushedStream

/-! # The two kinds of overloads on any file

    The overloads without `std::error_code` read from a stream that throws
    `std::ios_base::failure`, those with it from a silent one.  Whatever the file
    contains, a call of the first kind either throws that exception or ends as the
    other one does, which never touches its `std::error_code`
    (`overloads_agree_or_failure`).  For narrow regions this compares the numbers
    that the calls return; the bytes their casts copy too many are the same in both. -/

namespace VmUtils

open TextStream

variable {w a : Nat}

/-- A round of `query_impl` on the two streams. -/
theorem queryBody_hushes {e : Exn} {s s' : IStream Exn} (h : Hushed e s s') (address : BitVec 64)
    (l : Locals) :
    Hushes e (RoundHushed e) (queryBody w address s l) (queryBody w address s' l) := by
  rw [queryBody, queryBody]
  refine (extractHex_hushes h l.beginAddr).bind ?_
  rintro ⟨s₁, b⟩ ⟨s₁', b'⟩ ⟨h₁, rfl⟩
  dsimp only
  by_cases hb : address < b
  · rw [if_pos hb, if_pos hb]
    refine (Hushes.refl _).bind ?_
    rintro lo _ rfl
    refine (Hushes.refl _).bind ?_
    rintro hi _ rfl
    exact Hushes.ok (RoundHushed.stop _)
  · rw [if_neg hb, if_neg hb]
    refine (ignore_hushes h₁).bind ?_
    intro s₂ s₂' h₂
    refine (extractHex_hushes h₂ l.endAddr).bind ?_
    rintro ⟨s₃, n⟩ ⟨s₃', n'⟩ ⟨h₃, rfl⟩
    dsimp only
    by_cases hn : n < address
    · rw [if_pos hn, if_pos hn]
      exact Hushes.ok (RoundHushed.again _ h₃)
    · rw [if_neg hn, if_neg hn]
      refine (ignore_hushes h₃).bind ?_
      intro s₄ s₄' h₄
      refine (read_hushes h₄ l.prot).bind ?_
      rintro ⟨s₅, prot⟩ ⟨s₅', prot'⟩ ⟨-, rfl⟩
      dsimp only
      refine (Hushes.refl _).bind ?_
      rintro lo _ rfl
      refine (Hushes.refl _).bind ?_
      rintro hi _ rfl
      exact Hushes.ok (RoundHushed.stop _)

/-- A round of `query_range_impl` on the two streams. -/
theorem queryRangeBody_hushes {e : Exn} {s s' : IStream Exn} (h : Hushed e s s')
    (first last : BitVec 64) (l : Locals × List (BasicRegion w)) :
    Hushes e (RoundHushed e) (queryRangeBody w first last s l)
      (queryRangeBody w first last s' l) := by
  rw [queryRangeBody, queryRangeBody]
  refine (extractHex_hushes h l.1.beginAddr).bind ?_
  rintro ⟨s₁, b⟩ ⟨s₁', b'⟩ ⟨h₁, rfl⟩
  dsimp only
  by_cases hb : last < b
  · rw [if_pos hb, if_pos hb]
    exact Hushes.ok (RoundHushed.stop _)
  · rw [if_neg hb, if_neg hb]
    refine (ignore_hushes h₁).bind ?_
    intro s₂ s₂' h₂
    refine (extractHex_hushes h₂ l.1.endAddr).bind ?_
    rintro ⟨s₃, n⟩ ⟨s₃', n'⟩ ⟨h₃, rfl⟩
    dsimp only
    by_cases hn : n < first
    · rw [if_pos hn, if_pos hn]
      exact Hushes.ok (RoundHushed.again _ h₃)
    · rw [if_neg hn, if_neg hn]
      refine (ignore_hushes h₃).bind ?_
      intro s₄ s₄' h₄
      refine (read_hushes h₄ l.1.prot).bind ?_
      rintro ⟨s₅, prot⟩ ⟨s₅', prot'⟩ ⟨h₅, rfl⟩
      dsimp only
      refine (Hushes.refl _).bind ?_
      rintro lo _ rfl
      refine (Hushes.refl _).bind ?_
      rintro hi _ rfl
      exact Hushes.ok (RoundHushed.again _ h₅)

/-- `query_impl` on the two streams. -/
theorem queryImpl_hushes (e : Exn) (text : List Char) (u : Uninit) (address : BitVec 64) :
    Hushes e Eq (queryImpl w (IStream.over (some e) text) u address)
      (queryImpl w (IStream.over none text) u address) := by
  rw [queryImpl, queryImpl]
  refine (forLines_hushes (queryLoop w address)
    (fun _ _ l h => queryBody_hushes h address l) _ _ u.locals (hushed_over e text)).bind ?_
  rintro r _ rfl
  exact Hushes.refl _

/-- `query_range_impl` on the two streams. -/
theorem queryRangeImpl_hushes (e : Exn) (text : List Char) (u : Uninit)
    (first last : BitVec 64) :
    Hushes e Eq (queryRangeImpl w (IStream.over (some e) text) u first last)
      (queryRangeImpl w (IStream.over none text) u first last) := by
  rw [queryRangeImpl, queryRangeImpl]
  refine (forLines_hushes (queryRangeLoop w first last)
    (fun _ _ l h => queryRangeBody_hushes h first last l) _ _ (u.locals, [])
    (hushed_over e text)).bind ?_
  rintro r _ rfl
  exact Hushes.refl _

/-- A call beside its `std::error_code`. -/
theorem bind_pair_eq_map {α : Type} (x : Except Exn α) (ec : ErrorCode) :
    (do let y ← x; return (y, ec) : Except Exn (α × ErrorCode)) = x.map (fun y => (y, ec)) := by
  cases x <;> rfl

/-- **Throwing or agreeing**: for every process, handle and file content, and every
    address width, an overload without `std::error_code` throws
    `std::ios_base::failure`, or the one with it does the same and leaves its
    `std::error_code` alone. -/
theorem overloads_agree_or_failure (os : Process) (u : Uninit) (handle : Int)
    (first last : BitVec a) (ec : ErrorCode) :
    (query w os u handle first = .error .iosFailure
        ∨ queryEc w os u handle first ec = (query w os u handle first).map (fun r => (r, ec)))
      ∧ (queryRange w os u handle first last = .error .iosFailure
        ∨ queryRangeEc w os u handle first last ec
          = (queryRange w os u handle first last).map (fun rs => (rs, ec))) := by
  constructor
  · rw [query, queryEc]
    cases os.openFile (mapsPath handle) with
    | none => exact Or.inl rfl
    | some text =>
        cases addressCast 64 first with
        | error e => exact Or.inr rfl
        | ok address =>
            show queryImpl w _ u address = _ ∨ (do let r ← queryImpl w _ u address; return (r, ec))
              = (queryImpl w _ u address).map _
            rcases (queryImpl_hushes (w := w) .iosFailure text u address).eq_or with h | h
            · exact Or.inl h
            · rw [h, bind_pair_eq_map]
              exact Or.inr rfl
  · rw [queryRange, queryRangeEc]
    cases os.openFile (mapsPath handle) with
    | none => exact Or.inl rfl
    | some text =>
        cases addressCast 64 first with
        | error e => exact Or.inr rfl
        | ok lo =>
            cases addressCast 64 last with
            | error e => exact Or.inr rfl
            | ok hi =>
                show queryRangeImpl w _ u lo hi = _
                  ∨ (do let rs ← queryRangeImpl w _ u lo hi; return (rs, ec))
                    = (queryRangeImpl w _ u lo hi).map _
                rcases (queryRangeImpl_hushes (w := w) .iosFailure text u lo hi).eq_or with h | h
                · exact Or.inl h
                · rw [h, bind_pair_eq_map]
                  exact Or.inr rfl

end VmUtils
