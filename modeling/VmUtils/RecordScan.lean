import VmUtils.QueryResult

/-! # `query` as a scan of records

    What `query_impl` means, said of the records alone: the first record that
    starts above the address or ends at or above it decides, together with the
    end of the record in front of it (`recordScan`).  The character loop computes
    exactly this on every nonempty list of records (`queryImpl_recordScan`). -/

namespace VmUtils

open TextStream

/-! ## The record-level scan -/

/-- The record decides about `a`: it starts above `a`, or ends at or above it. -/
def MapsLine.Decides (a : BitVec 64) (l : MapsLine) : Prop := a < l.beginAddr ∨ a ≤ l.endAddr

instance (a : BitVec 64) (l : MapsLine) : Decidable (l.Decides a) :=
  inferInstanceAs (Decidable (_ ∨ _))

/-- Read, write and execute from the first three permission characters. -/
def permBits (perms : ProtChars) : Protection :=
  ⟨(if perms 0 = '-' then 0 else accessRead) ||| (if perms 1 = '-' then 0 else accessWrite)
    ||| (if perms 2 = '-' then 0 else accessExec)⟩

/-- The first record that decides gives its own region or the free memory in
    front of it; without one the free memory behind the last record is left.
    `prev` is where the free memory in front of the first record begins. -/
def recordScan (a prev : BitVec 64) (lines : List MapsLine) : BasicRegion 64 :=
  match lines.find? (fun l => l.Decides a) with
  | none => BasicRegion.free (lastEnd prev lines) (BitVec.allOnes 64)
  | some l =>
      if a < l.beginAddr then
        BasicRegion.free (lastEnd prev (lines.takeWhile (fun l => ¬ l.Decides a))) l.beginAddr
      else BasicRegion.mapped l.beginAddr l.endAddr (permBits l.perms) (l.perms 3 != '-')

theorem transformProt_permBits (perms : ProtChars) : transformProt perms = permBits perms := by
  by_cases hr : perms 0 = '-' <;> by_cases hw : perms 1 = '-' <;> by_cases hx : perms 2 = '-' <;>
    simp [transformProt, permBits, hr, hw, hx, boolToInt, accessRead, accessWrite, accessExec]

/-- A record that decides ends the scan. -/
theorem recordScan_of_decides {a : BitVec 64} {m : MapsLine} (h : m.Decides a)
    (prev : BitVec 64) (ms : List MapsLine) :
    recordScan a prev (m :: ms)
      = if a < m.beginAddr then BasicRegion.free prev m.beginAddr
        else BasicRegion.mapped m.beginAddr m.endAddr (permBits m.perms) (m.perms 3 != '-') := by
  have hfind : (m :: ms).find? (fun l => l.Decides a) = some m :=
    List.find?_cons_of_pos (by simp [h])
  have htake : (m :: ms).takeWhile (fun l => ¬ l.Decides a) = [] :=
    List.takeWhile_cons_of_neg (by simp [h])
  rw [recordScan, hfind, htake]
  rfl

/-- A record that does not decide only moves the beginning of the free memory. -/
theorem recordScan_of_not_decides {a : BitVec 64} {m : MapsLine} (h : ¬ m.Decides a)
    (prev : BitVec 64) (ms : List MapsLine) :
    recordScan a prev (m :: ms) = recordScan a m.endAddr ms := by
  have hfind : (m :: ms).find? (fun l => l.Decides a) = ms.find? (fun l => l.Decides a) :=
    List.find?_cons_of_neg (by simp [h])
  have htake : (m :: ms).takeWhile (fun l => ¬ l.Decides a)
      = m :: ms.takeWhile (fun l => ¬ l.Decides a) := List.takeWhile_cons_of_pos (by simp [h])
  rw [recordScan, recordScan, hfind, htake, lastEnd_cons, lastEnd_cons]

/-- The loop decides as the records do. -/
theorem scanRegion_eq_recordScan (a : BitVec 64) (lines : List MapsLine) (prev : BitVec 64) :
    scanRegion a prev lines = recordScan a prev lines := by
  induction lines generalizing prev with
  | nil => rfl
  | cons m ms ih =>
      rw [scanRegion]
      by_cases hb : a < m.beginAddr
      · rw [if_pos hb, recordScan_of_decides (Or.inl hb), if_pos hb]
      · rw [if_neg hb]
        by_cases he : m.endAddr < a
        · rw [if_pos he, recordScan_of_not_decides (not_decides hb he)]
          exact ih m.endAddr
        · have hle : a ≤ m.endAddr := Nat.le_of_not_lt he
          rw [if_neg he, recordScan_of_decides (Or.inr hle), if_neg hb, MapsLine.region,
            transformProt_permBits]

/-- **The character loop is the record-level scan**, for every nonempty list of
    records and whatever the uninitialised locals hold. -/
theorem queryImpl_recordScan (lines : List MapsLine) (hne : lines ≠ []) (u : Uninit)
    (a : BitVec 64) :
    queryImpl 64 (IStream.over none (mapsText lines)) u a = .ok (recordScan a 0 lines) := by
  rw [queryImpl_text hne, scanRegion_eq_recordScan]

theorem queryImpl_recordScan_sample :
    queryImpl 64 (IStream.over none (mapsText sampleListing.lines)) sampleUninit 0x5000
      = .ok (recordScan 0x5000 0 sampleListing.lines) :=
  queryImpl_recordScan sampleListing.lines (by decide) sampleUninit 0x5000

/-- In front of the third mapping of the sample. -/
example : recordScan 0x5000 0 sampleListing.lines = BasicRegion.free 0x4000 0x8000 := by decide

end VmUtils
