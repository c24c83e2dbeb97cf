import AsioCoroFrame.Models.Attendance.Writer

/-!
# Dates of the attendance report

The scan of a date assigns the variables whose conversions match, and stops at
the first one that does not. The date of a record is a function of its text
exactly when all three numbers are there; otherwise the day, at least, is what
the variable happened to hold.
-/

namespace AsioCoroFrame.Attendance

open Cluster (cString)

/-- A number as `%d` reads it: blanks, at most one sign, and digits. -/
def IsNumber (s : Bytes) : Prop :=
  ∃ blanks sign digits, s = blanks ++ (sign ++ digits) ∧ (∀ b ∈ blanks, isSpace b = true) ∧
    sign ∈ ([[], [43], [45]] : List Bytes) ∧ digits ≠ [] ∧ ∀ b ∈ digits, isDigit 10 b = true

/-- Three numbers with `-` between them, followed by anything. -/
def FullDate (s : Bytes) : Prop :=
  ∃ year month day rest, s = year ++ 45 :: (month ++ 45 :: (day ++ rest)) ∧
    IsNumber year ∧ IsNumber month ∧ IsNumber day

/-! ## One conversion -/

/-- What `scanSign` takes off is a sign or nothing. -/
theorem exists_scanSign (s : Bytes) :
    ∃ sign ∈ ([[], [43], [45]] : List Bytes), s = sign ++ (scanSign s).2 := by
  unfold scanSign
  split
  · rename_i b t
    split_ifs with hminus hplus
    · exact ⟨[45], by simp, by simp [hminus]⟩
    · exact ⟨[43], by simp, by simp [hplus]⟩
    · exact ⟨[], by simp, rfl⟩
  · exact ⟨[], by simp, rfl⟩

/-- A conversion that matches has read a number. -/
theorem isNumber_of_scanInt {s rest : Bytes} {v : Int} (h : scanInt s = some (v, rest)) :
    ∃ num, s = num ++ rest ∧ IsNumber num := by
  obtain ⟨sign, hsign, hbody⟩ := exists_scanSign (s.dropWhile isSpace)
  simp only [scanInt] at h
  split at h
  · exact absurd h (Option.some_ne_none _).symm
  · rename_i hne
    obtain ⟨_, rfl⟩ := Prod.mk.inj (Option.some.inj h)
    refine ⟨s.takeWhile isSpace ++ (sign ++ (scanSign (s.dropWhile isSpace)).2.takeWhile
      (isDigit 10)), ?_, _, sign, _, rfl, ?_, hsign, hne, ?_⟩
    · rw [List.append_assoc, List.append_assoc, List.takeWhile_append_dropWhile, ← hbody,
        List.takeWhile_append_dropWhile]
    · exact fun b hb => List.mem_takeWhile_imp hb
    · exact fun b hb => List.mem_takeWhile_imp hb

/-- A number is read up to the end of its digits. -/
theorem scanInt_number {num : Bytes} (h : IsNumber num) (rest : Bytes) :
    ∃ v, scanInt (num ++ rest) = some (v, rest.dropWhile (isDigit 10)) := by
  obtain ⟨blanks, sign, digits, rfl, hblanks, hsign, hne, hdigits⟩ := h
  obtain ⟨d, ds, rfl⟩ := List.exists_cons_of_ne_nil hne
  have hd : isDigit 10 d = true := hdigits d List.mem_cons_self
  have hskip : (blanks ++ (sign ++ d :: ds) ++ rest).dropWhile isSpace =
      sign ++ (d :: ds ++ rest) := by
    rw [List.append_assoc, List.dropWhile_append_of_pos hblanks, List.append_assoc]
    simp only [List.mem_cons, List.not_mem_nil, or_false] at hsign
    rcases hsign with rfl | rfl | rfl
    · simp [not_space_of_isDigit hd]
    · rfl
    · rfl
  have hbody : (scanSign (sign ++ (d :: ds ++ rest))).2 = d :: ds ++ rest := by
    simp only [List.mem_cons, List.not_mem_nil, or_false] at hsign
    rcases hsign with rfl | rfl | rfl
    · exact congrArg Prod.snd (scanSign_of_isDigit (ds ++ rest) hd)
    · rfl
    · rfl
  have htake : (d :: ds ++ rest).takeWhile (isDigit 10) ≠ [] := by
    rw [List.takeWhile_append_of_pos hdigits]
    exact List.append_ne_nil_of_left_ne_nil hne _
  simp only [scanInt, hskip, hbody, htake, if_false]
  rw [List.dropWhile_append_of_pos hdigits]
  exact ⟨_, rfl⟩

/-- In front of a `-` a number is read up to there. -/
theorem scanInt_dash {num : Bytes} (h : IsNumber num) (rest : Bytes) :
    ∃ v, scanInt (num ++ 45 :: rest) = some (v, 45 :: rest) := scanInt_number h (45 :: rest)

/-! ## The scan -/

/-- A full date assigns all three variables. -/
theorem sscanfDate_of_full {s : Bytes} (h : FullDate s) :
    ∃ ymd, ∀ uninit, sscanfDate s uninit = ymd := by
  obtain ⟨year, month, day, rest, rfl, hyear, hmonth, hday⟩ := h
  obtain ⟨y, hy⟩ := scanInt_dash hyear (month ++ 45 :: (day ++ rest))
  obtain ⟨m, hm⟩ := scanInt_dash hmonth (day ++ rest)
  obtain ⟨d, hd⟩ := scanInt_number hday rest
  exact ⟨(y, m, d), fun uninit => by simp only [sscanfDate, hy, hm, hd]⟩

/-- Any other text leaves the day as it was. -/
theorem sscanfDate_of_not_full {s : Bytes} (h : ¬ FullDate s) (uninit : Ymd) :
    (sscanfDate s uninit).2.2 = uninit.2.2 := by
  obtain ⟨year, month, day⟩ := uninit
  simp only [sscanfDate]
  split
  · rename_i y s' hyear
    split
    · rename_i m s'' hmonth
      split
      · rename_i d rest hday
        obtain ⟨numYear, rfl, hy⟩ := isNumber_of_scanInt hyear
        obtain ⟨numMonth, rfl, hm⟩ := isNumber_of_scanInt hmonth
        obtain ⟨numDay, rfl, hd⟩ := isNumber_of_scanInt hday
        exact absurd ⟨numYear, numMonth, numDay, rest, rfl, hy, hm, hd⟩ h
      · rfl
    · rfl
    · rfl
  · rfl
  · rfl

/-- The date that `write_to_excel` gives to a record is a function of the text in the record's
dates field exactly when the scanned text, which lacks the last byte, is a full date: then the
scan assigns all three variables, and otherwise the day is not assigned. -/
theorem dateOf_determined_iff (dates : Bytes) :
    (∀ (mktime : Tm → Int) (uninit uninit' : Ymd) (x x' : ReportData), x.dates = dates →
        x'.dates = dates → dateOf mktime uninit x = dateOf mktime uninit' x') ↔
      FullDate (cString (tempDate dates)) := by
  constructor
  · intro h
    by_contra hnot
    let x : ReportData := { ReportData.new with dates := dates }
    have hday (uninit : Ymd) : dateOf Tm.tm_mday uninit x = uninit.2.2 :=
      sscanfDate_of_not_full hnot uninit
    have hsame := h Tm.tm_mday (0, 0, 0) (0, 0, 1) x x rfl rfl
    rw [hday, hday] at hsame
    exact absurd hsame (by decide)
  · rintro hfull mktime uninit uninit' x x' hx hx'
    obtain ⟨ymd, hymd⟩ := sscanfDate_of_full hfull
    simp only [dateOf, hx, hx', stringToDatetime, hymd]

/-- A blank row has no date: the scan assigns nothing. -/
theorem dateOf_blank :
    ¬ ∀ (mktime : Tm → Int) (uninit uninit' : Ymd) (x x' : ReportData), x.dates = [] →
      x'.dates = [] → dateOf mktime uninit x = dateOf mktime uninit' x' := fun h =>
  absurd (h Tm.tm_mday (0, 0, 0) (0, 0, 1) .new .new rfl rfl) (by decide)

/-- The calls of the sheet writer do not depend on what the variables held before, when all records
but the first, which is not written, have a full date. -/
theorem writeToExcel_determined (mktime : Tm → Int) (stack stack' : Nat → Ymd)
    {data : List ReportData} (h : ∀ x ∈ data.tail, FullDate (cString (tempDate x.dates))) :
    writeToExcel mktime stack data = writeToExcel mktime stack' data := by
  have hrecords : (data.zipIdx.drop 1).flatMap (fun p => writeRecord mktime (stack p.2) p.1) =
      (data.zipIdx.drop 1).flatMap (fun p => writeRecord mktime (stack' p.2) p.1) := by
    refine List.flatMap_congr fun p hp => ?_
    have hmem : p.1 ∈ data.tail := by
      cases data with
      | nil => exact absurd hp (by simp)
      | cons x data => exact List.fst_mem_of_mem_zipIdx hp
    have hdate := (dateOf_determined_iff p.1.dates).mpr (h p.1 hmem) mktime (stack p.2) (stack' p.2)
    rw [writeRecord, writeRecord, hdate p.1 p.1 rfl rfl]
  rw [writeToExcel, writeToExcel, hrecords]

end AsioCoroFrame.Attendance
