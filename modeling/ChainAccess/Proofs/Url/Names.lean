import ChainAccess.Proofs.Text.Parts
import ChainAccess.Proofs.Url.Percent
import ChainAccess.Url.Host
import Mathlib.Data.List.Basic
import Mathlib.Tactic.Common
-- Names of hosts. A name that has been read is a row of labels in their ASCII form, so it
-- is read as it stands; when its last label is a number it stands for an address of four
-- numbers, and the text of an address is read as that address.

namespace ChainAccess.Url.Host

variable {c d : Char} {cs label name : List Char}

/-! ## Characters of labels -/

/-- A character of a label in its ASCII form. -/
structure IsLabelChar (c : Char) : Prop where
  lt : c.toNat < 128
  lower : c.toLower = c
  ne_point : c ≠ '.'

theorem isLabelChar_labelDigit : ∀ n < 36, IsLabelChar (labelDigit n) := by
  have hall : ∀ n < 36, (labelDigit n).toNat < 128 ∧ (labelDigit n).toLower = labelDigit n ∧
      labelDigit n ≠ '.' := by decide
  intro n hn
  obtain ⟨hlt, hlower, hpoint⟩ := hall n hn
  exact ⟨hlt, hlower, hpoint⟩

theorem isLabelChar_mark : IsLabelChar '-' := ⟨by decide, by decide, by decide⟩

theorem isLabelChar_front : ∀ c ∈ "xn--".toList, IsLabelChar c := by
  have hchars : "xn--".toList = ['x', 'n', '-', '-'] := rfl
  intro c hc
  rw [hchars] at hc
  simp only [List.mem_cons, List.not_mem_nil, or_false] at hc
  rcases hc with rfl | rfl | rfl | rfl <;> exact ⟨by decide, by decide, by decide⟩

theorem toNat_ofNat {n : Nat} (h : n < 0xd800) : (Char.ofNat n).toNat = n := by
  rw [Char.ofNat, dif_pos (Or.inl h)]
  rfl

theorem toLower_toLower (c : Char) : c.toLower.toLower = c.toLower := by
  by_cases hupper : c.val ≥ 'A'.val ∧ c.val ≤ 'Z'.val
  · have hshift : c.toLower.val = c.val + ('a'.val - 'A'.val) :=
      congrArg Char.val (dif_pos hupper)
    have hlower : ¬ (c.toLower.val ≥ 'A'.val ∧ c.toLower.val ≤ 'Z'.val) := by
      rw [hshift]
      simp only [ge_iff_le, UInt32.le_iff_toNat_le, UInt32.toNat_add] at hupper ⊢
      have hfirst : 'A'.val.toNat = 65 := rfl
      have hlast : 'Z'.val.toNat = 90 := rfl
      have hdistance : ('a'.val - 'A'.val).toNat = 32 := rfl
      omega
    exact dif_neg hlower
  · have hsame : c.toLower = c := dif_neg hupper
    rw [hsame, hsame]

/-- Only a plain character has a plain one in lower case. -/
theorem lower_of_lowerLetter (h : (lowerLetter c).toNat < 128) :
    (lowerLetter c).toLower = lowerLetter c := by
  have hshift : ∀ {n : Nat}, 128 ≤ n → n < 0xd800 → ¬ (Char.ofNat n).toNat < 128 := by
    intro n hlo hhi
    rw [toNat_ofNat hhi]
    omega
  unfold lowerLetter at h ⊢
  simp only [Bool.or_eq_true, Bool.and_eq_true, decide_eq_true_eq] at h ⊢
  split at h
  · exact absurd h (hshift (by omega) (by omega))
  · split at h
    · exact absurd h (hshift (by omega) (by omega))
    · split at h
      · exact absurd h (hshift (by omega) (by omega))
      · rw [if_neg (by assumption), if_neg (by assumption), if_neg (by assumption)]
        exact toLower_toLower c

theorem lower_of_mem_nameChar (h : d ∈ nameChar c) (hplain : d.toNat < 128) : d.toLower = d := by
  unfold nameChar at h
  dsimp only at h
  split at h
  · cases h
  · split at h
    · obtain rfl := List.mem_singleton.mp h
      decide
    · split at h
      · obtain rfl := List.mem_singleton.mp h
        decide
      · split at h
        · rw [List.mem_singleton.mp h]
          exact toLower_toLower _
        · obtain rfl := List.mem_singleton.mp h
          exact lower_of_lowerLetter hplain

/-- A plain character in lower case stands for itself. -/
theorem nameChar_eq (hplain : c.toNat < 128) (hlower : c.toLower = c) : nameChar c = [c] := by
  have hletter : lowerLetter c = c := by
    unfold lowerLetter
    simp only [Bool.or_eq_true, Bool.and_eq_true, decide_eq_true_eq]
    rw [if_neg (by omega), if_neg (by omega), if_neg (by omega), hlower]
  unfold nameChar
  simp only [Bool.or_eq_true, Bool.and_eq_true, decide_eq_true_eq]
  rw [if_neg (by omega), if_neg (by omega), if_neg (by omega), if_neg (by omega), hletter]

/-! ## The ASCII form of a label -/

theorem mem_deltaDigits {bias k q : Nat} (h : c ∈ deltaDigits bias k q) :
    ∃ n < 36, c = labelDigit n := by
  fun_induction deltaDigits bias k q with
  | case1 k q t hq =>
    have hle : t ≤ 26 := threshold_le bias k
    exact ⟨q, by omega, List.mem_singleton.mp h⟩
  | case2 k q t hq ih =>
    have hle : t ≤ 26 := threshold_le bias k
    rcases List.mem_cons.mp h with rfl | hmem
    · have hmod : (q - t) % (36 - t) < 36 - t := Nat.mod_lt _ (by omega)
      exact ⟨t + (q - t) % (36 - t), by omega, rfl⟩
    · exact ih hmem

theorem isLabelChar_writeLetters {basic n : Nat} {s : LabelState} (cs : List Char)
    (h : ∀ c ∈ s.done, IsLabelChar c) :
    ∀ c ∈ (writeLetters basic n s cs).done, IsLabelChar c := by
  fun_induction writeLetters basic n s cs with
  | case1 => exact h
  | case2 s c rest hc ih => exact ih h
  | case3 s c rest hlt heq ih =>
    refine ih fun c hc => ?_
    rcases List.mem_append.mp hc with hdone | hdigit
    · exact h c hdone
    · obtain ⟨n, hn, rfl⟩ := mem_deltaDigits hdigit
      exact isLabelChar_labelDigit n hn
  | case4 s c rest hlt hne ih => exact ih h

theorem isLabelChar_writeCodes {basic : Nat} {s : LabelState} (label : List Char) (n : Nat)
    (codes : List Nat) (h : ∀ c ∈ s.done, IsLabelChar c) :
    ∀ c ∈ (writeCodes label basic s n codes).done, IsLabelChar c := by
  induction codes generalizing s n with
  | nil => exact h
  | cons m rest ih =>
    rw [writeCodes]
    exact ih _ (isLabelChar_writeLetters label h)

/-- The characters of a label before it gets its ASCII form. -/
def IsLabel (label : List Char) : Prop :=
  ∀ c ∈ label, c ≠ '.' ∧ (c.toNat < 128 → c.toLower = c)

theorem isLabelChar_asciiLabel (h : IsLabel label) : ∀ c ∈ asciiLabel label, IsLabelChar c := by
  unfold asciiLabel
  split
  · next hall =>
    intro c hc
    have hplain : c.toNat < 128 := by simpa using List.all_eq_true.mp hall c hc
    exact ⟨hplain, (h c hc).2 hplain, (h c hc).1⟩
  · dsimp only
    have hplain : ∀ c ∈ label.filter (·.toNat < 128), IsLabelChar c := by
      intro c hc
      obtain ⟨hmem, hlt⟩ := List.mem_filter.mp hc
      have hlt : c.toNat < 128 := by simpa using hlt
      exact ⟨hlt, (h c hmem).2 hlt, (h c hmem).1⟩
    refine List.forall_mem_append.mpr ⟨isLabelChar_front, isLabelChar_writeCodes label 128 _ ?_⟩
    dsimp only
    split
    · simp
    · refine List.forall_mem_append.mpr ⟨hplain, ?_⟩
      simpa using isLabelChar_mark

theorem asciiLabel_eq (h : ∀ c ∈ label, IsLabelChar c) : asciiLabel label = label := by
  unfold asciiLabel
  have hall : label.all (·.toNat < 128) = true := by simpa using fun c hc => (h c hc).lt
  rw [if_pos hall]

/-! ## Names -/

theorem toList_pointed (labels : List (List Char)) :
    (".".intercalate (labels.map String.ofList)).toList = ['.'].intercalate labels :=
  Text.toList_intercalate rfl labels

/-- A name in the form in which it is looked at: labels in their ASCII form, at least one
character and none that no name holds. -/
structure IsName (name : List Char) (labels : List (List Char)) : Prop where
  eq : name = ['.'].intercalate labels
  labels_ne_nil : labels ≠ []
  label : ∀ l ∈ labels, ∀ c ∈ l, IsLabelChar c
  ne_nil : name ≠ []
  accepted : ∀ c ∈ name, isRefusedInName c = false

section

variable {labels : List (List Char)} (h : IsName name labels)
include h

theorem IsName.nameChar_eq (hc : c ∈ name) : nameChar c = [c] := by
  rcases Text.mem_intercalate (h.eq ▸ hc) with rfl | ⟨l, hl, hmem⟩
  · decide
  · have hchar := h.label l hl c hmem
    exact Host.nameChar_eq hchar.lt hchar.lower

theorem IsName.ne_of_refused (hc : c ∈ name) (hd : isRefusedInName d = true) : c ≠ d := by
  rintro rfl
  rw [h.accepted c hc] at hd
  cases hd

/-- A name in this form is read as itself, or as the address that it stands for. -/
theorem IsName.ofWebChars_eq :
    ofWebChars name = if endsInNumber name = true then
      (fourNumbers? name).elim (.error .badNumbers) (.ok ∘ dotted) else .ok name := by
  have hunmarked : '%' ∉ name := fun hmem => h.ne_of_refused hmem (by decide) rfl
  have hflat : name.flatMap nameChar = name := by
    rw [List.flatMap_congr fun c hc => h.nameChar_eq hc, List.flatMap_singleton' ]
  have hlabels : labels.map asciiLabel = labels := by
    refine (List.map_congr_left fun l hl => asciiLabel_eq (h.label l hl)).trans (List.map_id _)
  have hparts : name.splitOnP (· = '.') = labels := by
    rw [h.eq]
    exact Text.splitOnP_intercalate h.labels_ne_nil fun l hl hmem =>
      (h.label l hl '.' hmem).ne_point rfl
  have hnone : name.isEmpty = false := by simpa using h.ne_nil
  have hfine : name.any isRefusedInName = false := by simpa using h.accepted
  unfold ofWebChars
  split
  · exact absurd rfl (h.ne_of_refused List.mem_cons_self (by decide))
  · rw [percentDecode_of_unmarked hunmarked, Utf8.text?_encode]
    dsimp only
    rw [String.toList_ofList, hflat, hparts, hlabels, toList_pointed, ← h.eq, hnone,
      hfine]
    rfl

end

/-- What a host without brackets is: a name, or the address that a name stands for. -/
theorem exists_isName_of_ofWebChars {host : List Char} (hfirst : cs.head? ≠ some '[')
    (h : ofWebChars cs = .ok host) :
    ∃ name labels, IsName name labels ∧
      (endsInNumber name = false ∧ host = name ∨
        ∃ n, fourNumbers? name = some n ∧ host = dotted n) := by
  unfold ofWebChars at h
  split at h
  · exact absurd rfl hfirst
  · split at h
    · cases h
    · next s hs =>
      dsimp only at h
      rw [toList_pointed] at h
      set parts := (s.toList.flatMap nameChar).splitOnP (· = '.') with hpartsdef
      have hparts : ∀ l ∈ parts, IsLabel l := by
        intro l hl c hc
        obtain ⟨hmem, hpoint⟩ := Text.of_mem_splitOnP _ l hl c hc
        obtain ⟨d, -, hd⟩ := List.mem_flatMap.mp hmem
        exact ⟨by simpa using hpoint, lower_of_mem_nameChar hd⟩
      split at h
      · cases h
      · next hne =>
        split at h
        · cases h
        · next hfine =>
          have hname : IsName (['.'].intercalate (parts.map asciiLabel))
              (parts.map asciiLabel) := {
            eq := rfl
            labels_ne_nil := by
              rw [ne_eq, List.map_eq_nil_iff]
              exact List.splitOnP_ne_nil _ _
            label := by
              intro l hl
              obtain ⟨part, hpart, rfl⟩ := List.mem_map.mp hl
              exact isLabelChar_asciiLabel (hparts part hpart)
            ne_nil := by simpa using hne
            accepted := by simpa using hfine }
          split at h
          · cases hn : fourNumbers? (['.'].intercalate (parts.map asciiLabel)) with
            | none => rw [hn] at h; cases h
            | some n =>
              rw [hn] at h
              exact ⟨_, _, hname, .inr ⟨n, hn, (Except.ok.inj h).symm⟩⟩
          · next hword =>
            exact ⟨_, _, hname, .inl ⟨by simpa using hword, (Except.ok.inj h).symm⟩⟩

end ChainAccess.Url.Host
