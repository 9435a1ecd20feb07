import ChainAccess.Text.Utf8
import Mathlib.Tactic.Common
-- Texts and their bytes. The bytes of a text are that text again, and of no other bytes
-- it comes. Plain characters take one byte each, others none of theirs.

namespace ChainAccess.Utf8

/-! ## Bytes of a text -/

theorem toList_loop (bs : ByteArray) (i : Nat) (read : List UInt8) :
    ByteArray.toList.loop bs i read = read.reverse ++ bs.data.toList.drop i := by
  fun_induction ByteArray.toList.loop bs i read with
  | case1 i read hi ih =>
    have hlen : i < bs.data.toList.length := hi
    have hget : bs.get! i = bs.data.toList[i] := getElem!_pos bs.data i hi
    rw [ih, List.drop_eq_getElem_cons hlen, hget]
    simp
  | case2 i read hi =>
    have hlen : bs.data.toList.length ≤ i := Nat.le_of_not_lt hi
    rw [List.drop_eq_nil_of_le hlen, List.append_nil]

theorem encode_eq (s : String) : encode s = s.toByteArray.data.toList := by
  unfold encode ByteArray.toList
  rw [toList_loop, String.toUTF8_eq_toByteArray]
  rfl

theorem encode_ofList (cs : List Char) :
    encode (String.ofList cs) = cs.flatMap String.utf8EncodeChar := by
  rw [encode_eq, String.toByteArray_ofList, List.utf8Encode]
  simp

theorem encode_eq_flatMap (s : String) : encode s = s.toList.flatMap String.utf8EncodeChar := by
  rw [← encode_ofList, String.ofList_toList]

theorem text?_encode (s : String) : text? (encode s) = some s := by
  have hbytes : (⟨(encode s).toArray⟩ : ByteArray) = s.toByteArray := by
    rw [encode_eq, Array.toArray_toList]
  unfold text? String.fromUTF8?
  rw [hbytes, dif_pos s.isValidUTF8]
  rfl

/-- What is read from bytes has these bytes. -/
theorem encode_of_text? {bs : List UInt8} {s : String} (h : text? bs = some s) : encode s = bs := by
  unfold text? String.fromUTF8? at h
  split at h
  · rw [encode_eq, ← Option.some.inj h]
    rfl
  · cases h

/-! ## Bytes as characters -/

/-- The bytes of a text as characters. -/
def letters (cs : List Char) : List Char := (cs.flatMap String.utf8EncodeChar).map letter

theorem map_letter_encode (s : String) : (encode s).map letter = letters s.toList := by
  rw [encode_eq_flatMap, letters]

theorem letters_append (cs ds : List Char) : letters (cs ++ ds) = letters cs ++ letters ds := by
  unfold letters
  rw [List.flatMap_append, List.map_append]

theorem toNat_letter (b : UInt8) : (letter b).toNat = b.toNat := by
  have hvalid : b.toNat.isValidChar := Or.inl (Nat.lt_trans b.toNat_lt (by decide))
  unfold letter Char.ofNat
  rw [dif_pos hvalid]
  rfl

theorem ofNat_letter (b : UInt8) : UInt8.ofNat (letter b).toNat = b := by
  rw [toNat_letter, UInt8.ofNat_toNat]

/-! ## Plain characters -/

theorem utf8EncodeChar_of_plain {c : Char} (hc : c.toNat < 128) :
    String.utf8EncodeChar c = [UInt8.ofNat c.toNat] := by
  unfold String.utf8EncodeChar
  exact if_pos (Nat.le_of_lt_succ hc)

theorem le_toNat_ofNat {n : Nat} (hlo : 128 ≤ n) (hhi : n < 256) :
    128 ≤ (UInt8.ofNat n).toNat := by
  rw [UInt8.toNat_ofNat_of_lt' hhi]
  exact hlo

/-- The bytes of any other character are bytes of no plain one. -/
theorem le_of_mem_utf8EncodeChar {c : Char} (hc : 128 ≤ c.toNat) :
    ∀ b ∈ String.utf8EncodeChar c, 128 ≤ b.toNat := by
  have hvalid : c.toNat < 55296 ∨ 57343 < c.toNat ∧ c.toNat < 1114112 := c.valid
  unfold String.utf8EncodeChar
  rw [show c.val.toNat = c.toNat from rfl]
  generalize c.toNat = v at hc hvalid
  dsimp only
  rw [if_neg (by omega)]
  have hnil : ∀ b ∈ ([] : List UInt8), 128 ≤ b.toNat := fun b hb => absurd hb List.not_mem_nil
  have hnext : ∀ {n : Nat} {bs : List UInt8}, 128 ≤ n → n < 256 → (∀ b ∈ bs, 128 ≤ b.toNat) →
      ∀ b ∈ UInt8.ofNat n :: bs, 128 ≤ b.toNat := fun hlo hhi hbs =>
    List.forall_mem_cons.mpr ⟨le_toNat_ofNat hlo hhi, hbs⟩
  split
  · exact hnext (by omega) (by omega) (hnext (by omega) (by omega) hnil)
  · split
    · exact hnext (by omega) (by omega) (hnext (by omega) (by omega)
        (hnext (by omega) (by omega) hnil))
    · exact hnext (by omega) (by omega) (hnext (by omega) (by omega)
        (hnext (by omega) (by omega) (hnext (by omega) (by omega) hnil)))

/-- No character has a byte with all bits set. -/
theorem lt_of_mem_utf8EncodeChar (c : Char) : ∀ b ∈ String.utf8EncodeChar c, b.toNat < 255 := by
  have hvalid : c.toNat < 55296 ∨ 57343 < c.toNat ∧ c.toNat < 1114112 := c.valid
  unfold String.utf8EncodeChar
  rw [show c.val.toNat = c.toNat from rfl]
  generalize c.toNat = v at hvalid
  dsimp only
  have hnil : ∀ b ∈ ([] : List UInt8), b.toNat < 255 := fun b hb => absurd hb List.not_mem_nil
  have hnext : ∀ {n : Nat} {bs : List UInt8}, n < 255 → (∀ b ∈ bs, b.toNat < 255) →
      ∀ b ∈ UInt8.ofNat n :: bs, b.toNat < 255 := by
    intro n bs hn hbs
    refine List.forall_mem_cons.mpr ⟨?_, hbs⟩
    rwa [UInt8.toNat_ofNat_of_lt' (Nat.lt_trans hn (by decide))]
  split
  · exact hnext (by omega) hnil
  · split
    · exact hnext (by omega) (hnext (by omega) hnil)
    · split
      · exact hnext (by omega) (hnext (by omega) (hnext (by omega) hnil))
      · exact hnext (by omega) (hnext (by omega) (hnext (by omega) (hnext (by omega) hnil)))

theorem ne_of_mem_encode (s : String) : ∀ b ∈ encode s, b ≠ 0xff := by
  intro b hb
  rw [encode_eq_flatMap, List.mem_flatMap] at hb
  obtain ⟨c, -, hc⟩ := hb
  rintro rfl
  exact absurd (lt_of_mem_utf8EncodeChar c _ hc) (by decide)

/-- Plain characters are looked at one by one. -/
theorem encode_of_plain {cs : List Char} (hplain : ∀ c ∈ cs, c.toNat < 128) :
    (encode (String.ofList cs)).map (fun b => Char.ofNat b.toNat) = cs := by
  rw [encode_ofList]
  induction cs with
  | nil => rfl
  | cons c rest ih =>
    have hc : c.toNat < 128 := hplain c List.mem_cons_self
    have hback : (UInt8.ofNat c.toNat).toNat = c.toNat :=
      UInt8.toNat_ofNat_of_lt' (Nat.lt_trans hc (by decide))
    rw [List.flatMap_cons, utf8EncodeChar_of_plain hc, List.singleton_append, List.map_cons,
      hback, Char.ofNat_toNat, ih fun c hc => hplain c (List.mem_cons_of_mem _ hc)]

theorem letters_of_plain {cs : List Char} (hplain : ∀ c ∈ cs, c.toNat < 128) :
    letters cs = cs := by
  have hbytes := encode_of_plain hplain
  rwa [encode_ofList] at hbytes

theorem letters_singleton {c : Char} (hc : c.toNat < 128) : letters [c] = [c] :=
  letters_of_plain (by simpa using hc)

theorem letters_cons_of_plain {c : Char} (hc : c.toNat < 128) (cs : List Char) :
    letters (c :: cs) = c :: letters cs := by
  rw [← List.singleton_append, letters_append, letters_singleton hc]
  rfl

end ChainAccess.Utf8
