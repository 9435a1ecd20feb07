import ChainAccess.Amount.Decimal
import Mathlib.Tactic.Common
-- Reading back the text of a decimal. Its digits fit by themselves, so that none of
-- them is rounded away; its places are the digits behind the point. What is read never
-- is a zero with a sign, and only such a decimal would come back as another.

namespace ChainAccess.Decimal

/-! ## The text -/

variable {ds : List Char}

/-- The digits before the point and those behind it: at least one before, as many behind
as there are places, and together the same number. -/
theorem exists_withPoint (scale : Nat) (hne : ds ≠ []) (hdigits : ∀ c ∈ ds, c.isDigit) :
    ∃ whole places, whole ≠ [] ∧ places.length = scale ∧ (∀ c ∈ whole ++ places, c.isDigit) ∧
      Nat.ofDigitChars 10 (whole ++ places) 0 = Nat.ofDigitChars 10 ds 0 ∧
      withPoint scale ds = whole ++ if scale = 0 then [] else '.' :: places := by
  by_cases hscale : scale = 0
  · exact ⟨ds, [], hne, by simp [hscale], by simpa using hdigits, by simp, by
      simp [withPoint, hscale]⟩
  · have hpad : scale + 1 ≤ (List.replicate (scale + 1 - ds.length) '0' ++ ds).length := by
      rw [List.length_append, List.length_replicate]
      omega
    generalize hpadded : List.replicate (scale + 1 - ds.length) '0' ++ ds = padded at hpad
    have hjoin := List.take_append_drop (padded.length - scale) padded
    refine ⟨padded.take (padded.length - scale), padded.drop (padded.length - scale), ?_, ?_, ?_,
      ?_, ?_⟩
    · rw [← List.length_pos_iff, List.length_take]
      omega
    · rw [List.length_drop]
      omega
    · rw [hjoin, ← hpadded]
      intro c hc
      rcases List.mem_append.mp hc with hzero | hdigit
      · rw [List.eq_of_mem_replicate hzero]
        rfl
      · exact hdigits c hdigit
    · rw [hjoin, ← hpadded, Nat.ofDigitChars_append, Nat.ofDigitChars_replicate_zero, Nat.mul_zero]
    · simp [withPoint, hscale, hpadded]

/-- The digits of a decimal around its point. -/
theorem exists_places (d : Decimal) :
    ∃ whole places, whole ≠ [] ∧ places.length = d.scale ∧ (∀ c ∈ whole ++ places, c.isDigit) ∧
      Nat.ofDigitChars 10 (whole ++ places) 0 = d.mantissa ∧
      withPoint d.scale (Nat.toDigits 10 d.mantissa) =
        whole ++ if d.scale = 0 then [] else '.' :: places := by
  have hdigits : ∀ c ∈ Nat.toDigits 10 d.mantissa, c.isDigit := fun c hc =>
    Nat.isDigit_of_mem_toDigits (by decide) (by decide) hc
  have h := exists_withPoint d.scale Nat.toDigits_ne_nil hdigits
  rwa [Nat.ofDigitChars_ten_toDigits] at h

/-! ## Reading digits -/

/-- The scan behind some digits. -/
def Scan.past (s : Scan) (ds : List Char) : Scan :=
  { s with
    mantissa := Nat.ofDigitChars 10 ds s.mantissa
    scale := s.scale + s.point.toNat * ds.length
    digit := s.digit || !ds.isEmpty }

theorem le_ofDigitChars (ds : List Char) (n : Nat) : n ≤ Nat.ofDigitChars 10 ds n := by
  have hpos : 1 ≤ 10 ^ ds.length := Nat.one_le_pow _ _ (by decide)
  have hgrow : 1 * n ≤ 10 ^ ds.length * n := Nat.mul_le_mul_right n hpos
  rw [Nat.ofDigitChars_eq_ofDigitChars_zero]
  omega

/-- A digit that finds its place is taken as it is. -/
theorem scan_digit {s : Scan} {c : Char} {rest : List Char} (hdigit : c.isDigit)
    (hfit : 10 * s.mantissa + (c.toNat - 48) < bound)
    (hroom : s.point = false ∨ rest = [] ∨ s.scale + 1 < maxScale) :
    scan s (c :: rest) = scan (s.past [c]) rest := by
  have hpast : s.past [c] = { s with
      mantissa := 10 * s.mantissa + (c.toNat - 48)
      scale := s.scale + s.point.toNat
      digit := true } := by
    simp [Scan.past, Nat.ofDigitChars_cons]
  rw [scan, if_pos hdigit, hpast]
  dsimp only
  rw [if_neg (Nat.not_le.mpr hfit)]
  cases rest with
  | nil => simp [scan]
  | cons d rest =>
    have hno : (s.point && decide (maxScale ≤ s.scale + s.point.toNat)) = false := by
      rcases hroom with hpoint | hnil | hlow
      · simp [hpoint]
      · cases hnil
      · cases hpoint : s.point with
        | false => rfl
        | true => simpa using hlow
    dsimp only
    rw [hno]
    rfl

/-- Digits of a number that fits are taken as they are, as many behind the point as
there is room for. -/
theorem scan_digits {s : Scan} {rest : List Char} (hdigits : ∀ c ∈ ds, c.isDigit)
    (hfit : Nat.ofDigitChars 10 ds s.mantissa < bound)
    (hroom : s.point = false ∨ rest = [] ∧ s.scale + ds.length ≤ maxScale) :
    scan s (ds ++ rest) = scan (s.past ds) rest := by
  induction ds generalizing s with
  | nil => simp [Scan.past]
  | cons c ds ih =>
    rw [Nat.ofDigitChars_cons] at hfit
    have hfirst : 10 * s.mantissa + (c.toNat - 48) < bound :=
      Nat.lt_of_le_of_lt (le_ofDigitChars ds _) hfit
    have hpast : (s.past [c]).past ds = s.past (c :: ds) := by
      simp [Scan.past, Nat.ofDigitChars_cons, Nat.mul_add, Nat.add_comm, Nat.add_assoc]
    have hnext : s.point = false ∨ ds ++ rest = [] ∨ s.scale + 1 < maxScale := by
      rcases hroom with hpoint | ⟨rfl, hlength⟩
      · exact Or.inl hpoint
      · rw [List.length_cons] at hlength
        cases ds with
        | nil => exact Or.inr (Or.inl rfl)
        | cons d ds =>
          rw [List.length_cons] at hlength
          exact Or.inr (Or.inr (by omega))
    have hroom' : (s.past [c]).point = false ∨
        rest = [] ∧ (s.past [c]).scale + ds.length ≤ maxScale := by
      rcases hroom with hpoint | ⟨hrest, hlength⟩
      · exact Or.inl hpoint
      · rw [List.length_cons] at hlength
        refine Or.inr ⟨hrest, ?_⟩
        have hone : s.point.toNat ≤ 1 := Bool.toNat_le s.point
        simp only [Scan.past, List.length_singleton, Nat.mul_one]
        omega
    rw [List.cons_append, scan_digit (hdigits c List.mem_cons_self) hfirst hnext,
      ih (fun c hc => hdigits c (List.mem_cons_of_mem _ hc)) (by simpa [Scan.past,
        Nat.ofDigitChars_cons] using hfit) hroom', hpast]

/-! ## Reading back -/

/-- The decimal is no zero with a sign. -/
def ZeroUnsigned (d : Decimal) : Prop := d.mantissa = 0 → d.negative = false

theorem ofParts?_self {d : Decimal} (h : d.ZeroUnsigned) :
    ofParts? d.negative d.mantissa d.scale = some d := by
  have hsign : (d.negative && d.mantissa != 0) = d.negative := by
    by_cases hzero : d.mantissa = 0
    · rw [h hzero]
      rfl
    · simp [hzero]
  simp [ofParts?, d.mantissa_lt, d.scale_le, hsign]

/-- Behind all the digits, those after the point among them, stands the decimal. -/
theorem scan_end {d : Decimal} (h : d.ZeroUnsigned) (point : Bool) :
    scan ⟨d.negative, d.mantissa, d.scale, point, true⟩ [] = some d := ofParts?_self h

/-- The text behind the sign is read back. -/
theorem scan_withPoint {d : Decimal} (h : d.ZeroUnsigned) :
    scan ⟨d.negative, 0, 0, false, false⟩ (withPoint d.scale (Nat.toDigits 10 d.mantissa)) =
      some d := by
  obtain ⟨whole, places, hwhole, hlength, hdigits, hvalue, htext⟩ := exists_places d
  rw [Nat.ofDigitChars_append] at hvalue
  have hfit : Nat.ofDigitChars 10 places (Nat.ofDigitChars 10 whole 0) < bound := by
    rw [hvalue]
    exact d.mantissa_lt
  have hfront : Nat.ofDigitChars 10 whole 0 < bound :=
    Nat.lt_of_le_of_lt (le_ofDigitChars places _) hfit
  have hbefore : ∀ c ∈ whole, c.isDigit := fun c hc => hdigits c (List.mem_append_left _ hc)
  have hbehind : ∀ c ∈ places, c.isDigit := fun c hc => hdigits c (List.mem_append_right _ hc)
  have hpast : Scan.past ⟨d.negative, 0, 0, false, false⟩ whole =
      ⟨d.negative, Nat.ofDigitChars 10 whole 0, 0, false, true⟩ := by
    simp [Scan.past, hwhole]
  rw [htext, scan_digits hbefore hfront (Or.inl rfl), hpast]
  by_cases hscale : d.scale = 0
  · obtain rfl : places = [] := List.length_eq_zero_iff.mp (hlength.trans hscale)
    rw [Nat.ofDigitChars_nil] at hvalue
    rw [if_pos hscale, hvalue, ← hscale]
    exact scan_end h false
  · have hroom : 0 + places.length ≤ maxScale := by
      rw [Nat.zero_add, hlength]
      exact d.scale_le
    have hall : Scan.past ⟨d.negative, Nat.ofDigitChars 10 whole 0, 0, true, true⟩ places =
        ⟨d.negative, d.mantissa, d.scale, true, true⟩ := by
      simp [Scan.past, hvalue, hlength]
    have hpoint : scan ⟨d.negative, Nat.ofDigitChars 10 whole 0, 0, false, true⟩ ('.' :: places) =
        scan ⟨d.negative, Nat.ofDigitChars 10 whole 0, 0, true, true⟩ (places ++ []) := by
      rw [scan, List.append_nil]
      rfl
    rw [if_neg hscale, hpoint, scan_digits hbehind hfit (Or.inr ⟨rfl, hroom⟩), hall]
    exact scan_end h true

/-- A text that starts with a digit has no sign. -/
theorem ofPlain?_of_isDigit {c : Char} {rest : List Char} (hdigit : c.isDigit) :
    ofPlain? (c :: rest) = scan ⟨false, 0, 0, false, false⟩ (c :: rest) := by
  have hminus : c ≠ '-' := by
    rintro rfl
    cases hdigit
  have hplus : c ≠ '+' := by
    rintro rfl
    cases hdigit
  unfold ofPlain?
  split
  · next h => exact absurd (List.cons.inj h).1 hminus
  · next h => exact absurd (List.cons.inj h).1 hplus
  · rfl

/-- A decimal is read back from its text, its places too. -/
theorem ofString?_text {d : Decimal} (h : d.ZeroUnsigned) : ofString? d.text = some d := by
  have hplain : ofPlain? d.chars = some d := by
    have hscan := scan_withPoint h
    unfold chars
    cases hsign : d.negative with
    | true =>
      rw [hsign] at hscan
      exact hscan
    | false =>
      rw [hsign] at hscan
      obtain ⟨whole, places, hwhole, -, hdigits, -, htext⟩ := exists_places d
      obtain ⟨c, whole, rfl⟩ := List.exists_cons_of_ne_nil hwhole
      rw [htext] at hscan ⊢
      exact (ofPlain?_of_isDigit (hdigits c (by simp))).trans hscan
  rw [ofString?, text, String.toList_ofList, ofChars?, hplain]

theorem read_toJson {d : Decimal} (h : d.ZeroUnsigned) : Decimal.read d.toJson = .ok d := by
  simp [read, toJson, ofJson?, ofString?_text h]

/-! ## What is read -/

variable {negative : Bool} {m scale : Nat} {d : Decimal} {cs : List Char}

theorem zeroUnsigned_of_ofParts? (h : ofParts? negative m scale = some d) : d.ZeroUnsigned := by
  unfold ofParts? at h
  split at h
  · cases h
    intro hzero
    simp_all
  · cases h

theorem zeroUnsigned_of_round {s : Scan} {c : Char} (h : s.round c = some d) :
    d.ZeroUnsigned := by
  unfold Scan.round at h
  obtain ⟨up, -, h⟩ := Option.bind_eq_some_iff.mp h
  dsimp only at h
  generalize (if up = true then s.mantissa + 1 else s.mantissa) = m at h
  split at h
  · exact zeroUnsigned_of_ofParts? h
  split at h
  · cases h
  · exact zeroUnsigned_of_ofParts? h

/-- Every scan ends in putting parts together. -/
theorem zeroUnsigned_of_scan {s : Scan} (h : scan s cs = some d) : d.ZeroUnsigned := by
  fun_induction scan s cs with
  | case1 s hdigit => exact zeroUnsigned_of_ofParts? h
  | case2 => cases h
  | case3 => exact zeroUnsigned_of_round h
  | case4 => cases h
  | case5 => exact zeroUnsigned_of_ofParts? h
  | case6 => exact zeroUnsigned_of_round h
  | case7 _ _ _ _ _ _ _ _ _ ih => exact ih h
  | case8 _ _ _ _ _ ih => exact ih h
  | case9 _ _ _ _ _ _ ih => exact ih h
  | case10 => cases h

theorem zeroUnsigned_of_ofPlain? (h : ofPlain? cs = some d) : d.ZeroUnsigned := by
  unfold ofPlain? at h
  split at h <;> exact zeroUnsigned_of_scan h

theorem zeroUnsigned_of_shiftUp? {e : Nat} {d' : Decimal} (h : d'.shiftUp? e = some d) :
    d.ZeroUnsigned := by
  unfold shiftUp? at h
  split at h
  · exact zeroUnsigned_of_ofParts? h
  split at h
  · cases h
  · exact zeroUnsigned_of_ofParts? h

theorem zeroUnsigned_of_ofScientific? (h : ofScientific? cs = some d) : d.ZeroUnsigned := by
  unfold ofScientific? at h
  dsimp only at h
  split at h
  · cases h
  · obtain ⟨d', -, h⟩ := Option.bind_eq_some_iff.mp h
    split at h
    · obtain ⟨e, -, h⟩ := Option.bind_eq_some_iff.mp h
      exact zeroUnsigned_of_ofParts? h
    · obtain ⟨e, -, h⟩ := Option.bind_eq_some_iff.mp h
      exact zeroUnsigned_of_shiftUp? h

theorem zeroUnsigned_of_ofString? {s : String} (h : ofString? s = some d) : d.ZeroUnsigned := by
  unfold ofString? ofChars? at h
  split at h
  · next hplain =>
    cases h
    exact zeroUnsigned_of_ofPlain? hplain
  · exact zeroUnsigned_of_ofScientific? h

/-- No reading of a decimal gives a zero with a sign. -/
theorem zeroUnsigned_of_read {v : Json} (h : Decimal.read v = .ok d) : d.ZeroUnsigned := by
  have hjson : ofJson? v = some d := by
    unfold read at h
    cases hv : ofJson? v with
    | none => simp [hv] at h
    | some d' =>
      rw [hv] at h
      cases h
      rfl
  unfold ofJson? at hjson
  split at hjson
  · exact zeroUnsigned_of_ofParts? hjson
  · exact zeroUnsigned_of_ofParts? hjson
  · exact zeroUnsigned_of_ofPlain? hjson
  · exact zeroUnsigned_of_ofString? hjson
  · cases hjson

end ChainAccess.Decimal
