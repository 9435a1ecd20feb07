import ChainAccess.Contract.Batch
import ChainAccess.Proofs.Text.Utf8
import Mathlib.Tactic.Common
-- Return data as a node writes it: a marker and an even number of digits. The
-- result of a single call and the payload of an element of a batch are read by
-- different readers; from such a text both read the same bytes.

namespace ChainAccess

/-! ## Digits -/

namespace Hex

theorem toNat_lt_of_isSome {c : Char} (h : (value? c).isSome) : c.toNat < 128 := by
  unfold value? at h
  split at h
  · next hc => exact Nat.lt_of_le_of_lt (show c.toNat ≤ '9'.toNat from hc.2) (by decide)
  · split at h
    · next hc => exact Nat.lt_of_le_of_lt (show c.toNat ≤ 'f'.toNat from hc.2) (by decide)
    · split at h
      · next hc => exact Nat.lt_of_le_of_lt (show c.toNat ≤ 'F'.toNat from hc.2) (by decide)
      · cases h

/-- An even number of digits writes bytes, half as many. -/
theorem exists_decodeFrom : ∀ (cs : List Char) (i : Nat), cs.length % 2 = 0 →
    (∀ c ∈ cs, (value? c).isSome) →
    ∃ bs, decodeFrom i cs = .ok bs ∧ cs.length = 2 * bs.length
  | [], _, _, _ => ⟨[], rfl, rfl⟩
  | [_], _, heven, _ => by cases heven
  | a :: b :: rest, i, heven, hdigits => by
    obtain ⟨high, ha⟩ := Option.isSome_iff_exists.mp (hdigits a (by simp))
    obtain ⟨low, hb⟩ := Option.isSome_iff_exists.mp (hdigits b (by simp))
    simp only [List.length_cons] at heven
    obtain ⟨bs, hbs, hlength⟩ := exists_decodeFrom rest (i + 2) (by omega)
      fun c hc => hdigits c (by simp [hc])
    refine ⟨UInt8.ofNat (16 * high + low) :: bs, ?_, ?_⟩
    · rw [decodeFrom, ha, hb]
      simp [hbs, Except.map]
    · simp only [List.length_cons]
      omega

/-- Digits are no marker. -/
theorem stripMarkers_of_digits {cs : List Char} (hdigits : ∀ c ∈ cs, (value? c).isSome) :
    stripMarkers cs = cs := by
  unfold stripMarkers
  split
  · next rest =>
    have hno : ¬ (value? 'x').isSome := by decide
    exact absurd (hdigits 'x' (by simp)) hno
  · rfl

/-- A text of at least one byte: a marker and an even number of digits. -/
def Writes (text : String) : Prop :=
  ∃ cs, text.toList = '0' :: 'x' :: cs ∧ cs ≠ [] ∧ cs.length % 2 = 0 ∧
    ∀ c ∈ cs, (value? c).isSome

theorem value?_digit : ∀ n < 16, value? (digit n) = some n := by decide

theorem length_digits (bs : Bytes) : (digits bs).length = 2 * bs.length := by
  induction bs with
  | nil => rfl
  | cons b rest ih =>
    unfold digits at ih ⊢
    rw [List.flatMap_cons, List.length_append, ih, List.length_cons]
    simp only [ofByte, List.length_cons, List.length_nil]
    omega

theorem writes_encode {bs : Bytes} (hne : bs ≠ []) : Writes (encode bs) := by
  refine ⟨digits bs, String.toList_ofList, ?_, ?_, ?_⟩
  · intro hnil
    have hlength := length_digits bs
    rw [hnil] at hlength
    have hpos := List.length_pos_iff.mpr hne
    simp only [List.length_nil] at hlength
    omega
  · rw [length_digits]
    omega
  · intro c hc
    obtain ⟨b, -, hdigit⟩ := List.mem_flatMap.mp hc
    have hbyte := b.toNat_lt
    simp only [ofByte, List.mem_cons, List.not_mem_nil, or_false] at hdigit
    rcases hdigit with rfl | rfl
    · rw [value?_digit _ (by omega)]
      rfl
    · rw [value?_digit _ (by omega)]
      rfl

theorem decodeFrom_digits (bs : Bytes) (i : Nat) : decodeFrom i (digits bs) = .ok bs := by
  induction bs generalizing i with
  | nil => rfl
  | cons b rest ih =>
    have hbyte := b.toNat_lt
    have hhalves : UInt8.ofNat (16 * (b.toNat / 16) + b.toNat % 16) = b := by
      rw [Nat.div_add_mod, UInt8.ofNat_toNat]
    unfold digits at ih ⊢
    rw [List.flatMap_cons, ofByte, List.cons_append, List.cons_append, List.nil_append, decodeFrom,
      value?_digit _ (by omega), value?_digit _ (by omega)]
    simp only [ih, Except.map, hhalves]

/-- What is written is read back. -/
theorem bytes?_encode (bs : Bytes) : bytes? (encode bs) = some bs := by
  have heven : ¬ (digits bs).length % 2 = 1 := by
    rw [length_digits]
    omega
  unfold bytes? encode
  rw [String.toList_ofList, unmarked, decode, if_neg heven, decodeFrom_digits]
  rfl

/-- Both readers read the same bytes. -/
theorem Writes.exists_bytes {text : String} (h : Writes text) :
    ∃ bs, bs ≠ [] ∧ bytes? text = some bs ∧ Batch.payloadBytes text = .ok bs := by
  obtain ⟨cs, htext, hne, heven, hdigits⟩ := h
  obtain ⟨bs, hbs, hlength⟩ := exists_decodeFrom cs 0 heven hdigits
  have hplain : ∀ c ∈ cs, c.toNat < 128 := fun c hc => toNat_lt_of_isSome (hdigits c hc)
  have hdecode : decode cs = .ok bs := by
    unfold decode
    rw [if_neg (by omega), hbs]
  refine ⟨bs, ?_, ?_, ?_⟩
  · rintro rfl
    exact hne (List.length_eq_zero_iff.mp hlength)
  · unfold bytes?
    rw [htext, unmarked, hdecode]
    rfl
  · have hstrip : stripMarkers ('0' :: 'x' :: cs) = cs := stripMarkers_of_digits hdigits
    unfold Batch.payloadBytes
    dsimp only
    rw [htext, hstrip, Utf8.encode_of_plain hplain, hdecode]

/-- What is written is read back as a payload, too. -/
theorem payloadBytes_encode {bs : Bytes} (hne : bs ≠ []) :
    Batch.payloadBytes (encode bs) = .ok bs := by
  obtain ⟨bs', -, hread, hpayload⟩ := (writes_encode hne).exists_bytes
  cases (bytes?_encode bs).symm.trans hread
  exact hpayload

end Hex

theorem Bytes.read_of_bytes? {text : String} {bs : Bytes} (h : Hex.bytes? text = some bs) :
    Bytes.read (.str text) = .ok bs := by
  simp [Bytes.read, Bytes.ofJson?, h]

end ChainAccess
