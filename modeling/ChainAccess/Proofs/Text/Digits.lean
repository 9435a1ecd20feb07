import ChainAccess.Text.Hex
import Mathlib.Algebra.Group.Nat.Defs
import Mathlib.Data.List.Induction
import Mathlib.Tactic.Common
-- Digits of numbers. What writes a number in base ten or sixteen is a row of digits, and
-- from the digits of base sixteen the number is read back.

namespace ChainAccess

theorem Text.exists_digitChar {c : Char} (h : c.isDigit = true) : ∃ d < 10, c = d.digitChar := by
  have hrange : 48 ≤ c.toNat ∧ c.toNat ≤ 57 := by
    simpa [Char.isDigit, UInt32.le_iff_toNat_le] using h
  refine ⟨c.toNat - 48, by omega, Char.toNat_inj.mp ?_⟩
  rw [Nat.toNat_digitChar_of_lt_ten (by omega)]
  omega

namespace Hex

variable {c : Char} {n : Nat}

theorem exists_of_mem_toDigits (h : c ∈ Nat.toDigits 16 n) : ∃ d < 16, c = d.digitChar := by
  induction n using Nat.base_induction 16 (by decide) with
  | single d hd =>
    rw [Nat.toDigits_of_lt_base hd, List.mem_singleton] at h
    exact ⟨d, hd, h⟩
  | digit m d hd hm ih =>
    rw [← Nat.toDigits_append_toDigits (by decide) hm hd, Nat.toDigits_of_lt_base hd,
      List.mem_append, List.mem_singleton] at h
    rcases h with hmem | hlast
    · exact ih hmem
    · exact ⟨d, hd, hlast⟩

theorem value?_digitChar : ∀ d < 16, value? d.digitChar = some d := by decide

theorem value?_lt {d : Nat} (h : value? c = some d) : d < 16 := by
  unfold value? at h
  split at h
  · next hc =>
    have hle : c.toNat ≤ 57 := hc.2
    obtain rfl := Option.some.inj h
    omega
  · split at h
    · next hc =>
      have hle : c.toNat ≤ 102 := hc.2
      obtain rfl := Option.some.inj h
      omega
    · split at h
      · next hc =>
        have hle : c.toNat ≤ 70 := hc.2
        obtain rfl := Option.some.inj h
        omega
      · cases h

theorem value_concat (cs : List Char) (c : Char) :
    value (cs ++ [c]) =
      (value cs).bind fun n => (value? c).map (16 * n + ·) := by
  rw [value, List.foldl_append]
  rfl

theorem value_toDigits (n : Nat) : value (Nat.toDigits 16 n) = some n := by
  induction n using Nat.base_induction 16 (by decide) with
  | single d hd =>
    rw [Nat.toDigits_of_lt_base hd, ← List.nil_append [_], value_concat, value?_digitChar d hd]
    simp [value]
  | digit m d hd hm ih =>
    rw [← Nat.toDigits_append_toDigits (by decide) hm hd, Nat.toDigits_of_lt_base hd,
      value_concat, ih, value?_digitChar d hd]
    rfl

theorem value_lt (cs : List Char) : ∀ n, value cs = some n → n < 16 ^ cs.length := by
  induction cs using List.reverseRecOn with
  | nil =>
    intro n h
    obtain rfl := Option.some.inj h
    decide
  | append_singleton cs c ih =>
    intro n h
    rw [value_concat] at h
    obtain ⟨m, hm, hlast⟩ := Option.bind_eq_some_iff.mp h
    obtain ⟨d, hd, rfl⟩ := Option.map_eq_some_iff.mp hlast
    have hvalue := ih m hm
    have hdigit := value?_lt hd
    rw [List.length_append, List.length_singleton, Nat.pow_succ]
    omega

end Hex

end ChainAccess
