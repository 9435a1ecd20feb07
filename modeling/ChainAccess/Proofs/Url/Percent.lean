import ChainAccess.Proofs.Text.Utf8
import ChainAccess.Url.Percent
import Mathlib.Tactic.Common
-- Coded texts. A part of a URL holds percent signs and the digits behind them as they
-- are, so a coded text stays when it is coded once more. A text without percent signs is
-- read as its own bytes.

namespace ChainAccess.Url

variable {plain : Char → Bool} {refused : String} {c d : Char} {cs : List Char}

/-! ## What a part holds -/

theorem printableBut_iff :
    printableBut refused c = true ↔ isPrintable c = true ∧ c ∉ refused.toList := by
  simp [printableBut]

theorem ne_of_printableBut (h : printableBut refused c = true) (hd : d ∈ refused.toList) :
    c ≠ d := by
  rintro rfl
  exact (printableBut_iff.mp h).2 hd

/-- A part without blanks holds visible characters only. -/
theorem lt_of_printableBut (h : printableBut refused c = true) (hblank : ' ' ∈ refused.toList) :
    0x20 < c.toNat := by
  have hprintable := (printableBut_iff.mp h).1
  unfold isPrintable at hprintable
  rw [Bool.and_eq_true, decide_eq_true_iff] at hprintable
  have hne : c.toNat ≠ 0x20 := by
    intro heq
    exact ne_of_printableBut h hblank (by rw [← Char.ofNat_toNat c, heq])
  exact Nat.lt_of_le_of_ne hprintable.1 hne.symm

/-! ## What a coded text holds -/

/-- A digit behind a percent sign. -/
def codeDigit (n : Nat) : Char := (Hex.digit n).toUpper

theorem percentByte_eq (b : UInt8) :
    percentByte b = ['%', codeDigit (b.toNat / 16), codeDigit (b.toNat % 16)] := rfl

/-- A part that holds percent signs and the digits behind them as they are. -/
structure HoldsCodes (plain : Char → Bool) : Prop where
  mark : plain '%' = true
  digit : ∀ n < 16, plain (codeDigit n) = true

theorem holdsCodes_isUserChar : HoldsCodes isUserChar := ⟨by decide, by decide⟩

theorem holdsCodes_isPathChar : HoldsCodes isPathChar := ⟨by decide, by decide⟩

theorem holdsCodes_isWebQueryChar : HoldsCodes isWebQueryChar := ⟨by decide, by decide⟩

theorem holdsCodes_isFragmentChar : HoldsCodes isFragmentChar := ⟨by decide, by decide⟩

theorem percentEncode_cons (c : Char) (cs : List Char) :
    percentEncode plain (c :: cs) = percentChar plain c ++ percentEncode plain cs :=
  List.flatMap_cons

theorem mem_percentEncode (h : c ∈ percentEncode plain cs) :
    (c ∈ cs ∧ plain c = true) ∨ c = '%' ∨ ∃ n < 16, c = codeDigit n := by
  obtain ⟨d, hd, hc⟩ := List.mem_flatMap.mp h
  unfold percentChar at hc
  split at hc
  · next hplain =>
    obtain rfl := List.mem_singleton.mp hc
    exact .inl ⟨hd, hplain⟩
  · obtain ⟨b, -, hc⟩ := List.mem_flatMap.mp hc
    have hbyte := b.toNat_lt
    simp only [percentByte_eq, List.mem_cons, List.not_mem_nil, or_false] at hc
    rcases hc with hmark | hhigh | hlow
    · exact .inr (.inl hmark)
    · exact .inr (.inr ⟨_, by omega, hhigh⟩)
    · exact .inr (.inr ⟨_, by omega, hlow⟩)

theorem HoldsCodes.plain_of_mem (h : HoldsCodes plain) (hc : c ∈ percentEncode plain cs) :
    plain c = true := by
  rcases mem_percentEncode hc with ⟨-, hplain⟩ | rfl | ⟨n, hn, rfl⟩
  · exact hplain
  · exact h.mark
  · exact h.digit n hn

/-! ## Texts without codes -/

theorem percentEncode_of_plain (h : ∀ c ∈ cs, plain c = true) : percentEncode plain cs = cs := by
  induction cs with
  | nil => rfl
  | cons c rest ih =>
    have hc : percentChar plain c = [c] := if_pos (h c List.mem_cons_self)
    rw [percentEncode_cons, hc, ih fun c hc => h c (List.mem_cons_of_mem _ hc)]
    rfl

theorem encode_singleton (c : Char) :
    Utf8.encode (String.singleton c) = String.utf8EncodeChar c := by
  rw [show String.singleton c = String.ofList [c] from rfl, Utf8.encode_ofList]
  simp

/-- A character that is coded starts with a percent sign. -/
theorem exists_percentChar (h : plain c = false) : ∃ rest, percentChar plain c = '%' :: rest := by
  unfold percentChar
  rw [if_neg (by simp [h]), encode_singleton]
  cases hbytes : String.utf8EncodeChar c with
  | nil => exact absurd hbytes (String.utf8EncodeChar_ne_nil)
  | cons b bs => exact ⟨_, by rw [List.flatMap_cons, percentByte_eq]; rfl⟩

/-- Where no percent sign shows, nothing was coded. -/
theorem percentEncode_of_unmarked (h : '%' ∉ percentEncode plain cs) :
    percentEncode plain cs = cs := by
  refine percentEncode_of_plain fun c hc => ?_
  by_contra hplain
  obtain ⟨rest, hrest⟩ := exists_percentChar (Bool.eq_false_iff.mpr hplain)
  exact h (List.mem_flatMap.mpr ⟨c, hc, by rw [hrest]; exact List.mem_cons_self⟩)

/-! ## Reading -/

theorem percentDecode_of_unmarked (h : '%' ∉ cs) :
    percentDecode cs = Utf8.encode (String.ofList cs) := by
  rw [Utf8.encode_ofList]
  fun_induction percentDecode cs with
  | case1 | case2 => exact absurd List.mem_cons_self h
  | case3 c rest hno ih =>
    rw [ih fun hmem => h (List.mem_cons_of_mem _ hmem), encode_singleton, List.flatMap_cons]
  | case4 => rfl

end ChainAccess.Url
