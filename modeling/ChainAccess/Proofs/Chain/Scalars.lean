import ChainAccess.Amount.Quantity
import ChainAccess.Chain.Address
import ChainAccess.Proofs.Contract.Payloads
import ChainAccess.Proofs.Json.Records
import ChainAccess.Proofs.Transaction.Signed
import Mathlib.Tactic.Common
-- Reading back the scalars of the chain. A quantity comes back from its shortest
-- digits; addresses and hashes are written as their bytes are, all of them, so that
-- leading zeros are kept.

namespace ChainAccess

/-! ## Digits -/

namespace Quantity

variable {radix n : Nat}

theorem digit?_digitChar : ∀ d < 16, digit? d.digitChar = some d := by decide

theorem digitChar_ne_separator : ∀ d < 16, d.digitChar ≠ '_' := by decide

theorem gather?_append (cs ds : List Char) :
    gather? radix n (cs ++ ds) = (gather? radix n cs).bind fun m => gather? radix m ds := by
  induction cs generalizing n with
  | nil => rfl
  | cons c rest ih =>
    rw [List.cons_append, gather?, gather?]
    split
    · exact ih
    · cases digit? c with
      | none => rfl
      | some d =>
        dsimp only
        split
        · exact ih
        · rfl

theorem gather?_digitChar (hradix : radix ≤ 16) {d : Nat} (hd : d < radix) :
    gather? radix n [d.digitChar] = some (radix * n + d) := by
  have hlow : d < 16 := Nat.lt_of_lt_of_le hd hradix
  simp [gather?, digitChar_ne_separator d hlow, digit?_digitChar d hlow, hd]

/-- The digits of a number write it, the first digits the number without its last. -/
theorem gather?_toDigits (hpos : 1 < radix) (hradix : radix ≤ 16) (n : Nat) :
    gather? radix 0 (Nat.toDigits radix n) = some n := by
  induction n using Nat.base_induction radix hpos with
  | single d hd =>
    rw [Nat.toDigits_of_lt_base hd, gather?_digitChar hradix hd, Nat.mul_zero, Nat.zero_add]
  | digit m d hd hm ih =>
    rw [← Nat.toDigits_append_toDigits hpos hm hd, gather?_append, ih, Option.bind_some,
      Nat.toDigits_of_lt_base hd, gather?_digitChar hradix hd]

theorem ofJson?_text (n : Nat) : ofJson? (.str (text n)) = some n := by
  unfold ofJson? text
  dsimp only
  rw [String.toList_ofList]
  exact gather?_toDigits (by decide) (by decide) n

@[simp]
theorem readUInt64_ofUInt64 (n : UInt64) : readUInt64 (ofUInt64 n) = .ok n := by
  unfold readUInt64 ofUInt64
  simp [ofJson?_text, n.toNat_lt_size]

@[simp]
theorem readWord_ofWord (w : Word) : readWord (ofWord w) = .ok w := by
  have hfit : w.toNat < Word.size := w.isLt
  unfold readWord ofWord
  simp [ofJson?_text, hfit]

end Quantity

/-! ## Bytes, addresses and hashes -/

/-- The digits of so many bytes of a number are twice as many digits of it. -/
theorem Hex.digits_ofNat (width n : Nat) :
    digits (Bytes.ofNat width n) = ofNatWidth (2 * width) n := by
  induction width generalizing n with
  | zero => rfl
  | succ width ih =>
    have hbyte : (UInt8.ofNat n).toNat = n % 256 := UInt8.toNat_ofNat'
    have hhigh : n % 256 / 16 = n / 16 % 16 := by omega
    have hlow : n % 256 % 16 = n % 16 := by omega
    have hlast : digits [UInt8.ofNat n] = [digit (n / 16 % 16), digit (n % 16)] := by
      simp [digits, ofByte, hbyte, hhigh, hlow]
    have happend : digits (Bytes.ofNat (width + 1) n) =
        digits (Bytes.ofNat width (n / 256)) ++ digits [UInt8.ofNat n] := by
      simp [Bytes.ofNat, digits]
    rw [happend, ih, hlast, Nat.mul_add, Nat.mul_one, ofNatWidth, ofNatWidth,
      Nat.div_div_eq_div_mul, List.append_assoc]
    rfl

@[simp]
theorem Bytes.read_toJson (bs : Bytes) : Bytes.read bs.toJson = .ok bs :=
  Bytes.read_of_bytes? (Hex.bytes?_encode bs)

namespace Address

theorem text_eq (a : Address) : a.text = Hex.encode (Bytes.ofNat 20 a.value.toNat) := by
  rw [Hex.encode, Hex.digits_ofNat]
  rfl

@[simp]
theorem read_toJson (a : Address) : Address.read a.toJson = .ok a := by
  simp [read, toJson, Bytes.ofJson?, text_eq, Hex.bytes?_encode, ofBytes?_ofNat]

end Address

namespace Hash

theorem ofBytes?_ofNat (h : Hash) : ofBytes? (Bytes.ofNat 32 h.value.toNat) = some h := by
  have hfit : h.value.toNat < Nat.pow 256 32 := h.value.isLt
  rw [ofBytes?, if_pos (Bytes.length_ofNat ..), Bytes.toNat_ofNat, Nat.mod_eq_of_lt hfit,
    BitVec.ofNat_toNat, BitVec.setWidth_eq]

theorem text_eq (h : Hash) : h.text = Hex.encode (Bytes.ofNat 32 h.value.toNat) := by
  rw [Hex.encode, Hex.digits_ofNat]
  rfl

@[simp]
theorem read_toJson (h : Hash) : Hash.read h.toJson = .ok h := by
  simp [read, toJson, Bytes.ofJson?, text_eq, Hex.bytes?_encode, ofBytes?_ofNat]

end Hash

end ChainAccess
