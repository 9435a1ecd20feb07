import ChainAccess.Transaction.Rlp
import Mathlib.Tactic.Common
-- Reading the length-prefixed form back. A mark tells the length of what
-- follows, so that strings read back one after another, and a list of a known
-- number of strings reads back as a whole. A mark has eight bytes at most for
-- a length; what is longer has no such form.

namespace ChainAccess

/-! ## Numbers -/

namespace Bytes

theorem toNat_concat (bs : Bytes) (b : UInt8) : toNat (bs ++ [b]) = 256 * bs.toNat + b.toNat := by
  simp [toNat, List.foldl_append]

@[simp]
theorem length_ofNat (width n : Nat) : (ofNat width n).length = width := by
  induction width generalizing n with
  | zero => rfl
  | succ width ih => simp [ofNat, ih]

/-- So many bytes of a number keep it up to what does not fit. -/
theorem toNat_ofNat (width n : Nat) : (ofNat width n).toNat = n % Nat.pow 256 width := by
  induction width generalizing n with
  | zero => simp [ofNat, toNat, Nat.mod_one]
  | succ width ih =>
    rw [ofNat, toNat_concat, ih, Nat.pow_eq, Nat.pow_eq, Nat.pow_succ', Nat.mod_mul]
    simp only [UInt8.toNat_ofNat']
    omega

end Bytes

namespace Rlp

theorem toNat_bytesOf (n : Nat) : (bytesOf n).toNat = n := by
  unfold bytesOf
  split
  · next hzero => rw [hzero]; rfl
  · next hpos =>
    have hlog : n < 2 ^ (Nat.log2 n + 1) := Nat.lt_log2_self
    have hfit : 2 ^ (Nat.log2 n + 1) ≤ 256 ^ (Nat.log2 n / 8 + 1) := by
      rw [show 256 = 2 ^ 8 from rfl, ← Nat.pow_mul]
      exact Nat.pow_le_pow_right (by decide) (by omega)
    rw [Bytes.toNat_ofNat, Nat.pow_eq, Nat.mod_eq_of_lt (Nat.lt_of_lt_of_le hlog hfit)]

/-- The length of a short number fits into eight bytes. -/
theorem length_bytesOf_le {n : Nat} (hn : n < UInt64.size) : (bytesOf n).length ≤ 8 := by
  unfold bytesOf
  split
  · simp
  · next hpos =>
    have hlog : Nat.log2 n < 64 := (Nat.log2_lt hpos).mpr hn
    rw [Bytes.length_ofNat]
    omega

theorem length_bytesOf_pos {n : Nat} (hn : n ≠ 0) : 0 < (bytesOf n).length := by
  simp [bytesOf, hn]

/-! ## Readers -/

/-- The first bytes, so many, and the rest. -/
def take? (length : Nat) (bs : Bytes) : Option (Bytes × Bytes) :=
  if length ≤ bs.length then some (bs.take length, bs.drop length) else none

/-- The length that a mark counted from `base` tells, and what follows it. -/
def readMark? (base : Nat) : Bytes → Option (Nat × Bytes)
  | [] => none
  | mark :: rest =>
    if mark.toNat < base ∨ base + 63 < mark.toNat then none
    else if mark.toNat ≤ base + 55 then some (mark.toNat - base, rest)
    else (take? (mark.toNat - (base + 55)) rest).map fun (length, rest) => (length.toNat, rest)

/-- A byte string, and what follows it. -/
def readString? : Bytes → Option (Bytes × Bytes)
  | [] => none
  | b :: rest =>
    if b < 0x80 then some ([b], rest)
    else (readMark? 0x80 (b :: rest)).bind fun (length, rest) => take? length rest

/-- So many byte strings and nothing after them. -/
def readStrings? : Nat → Bytes → Option (List Bytes)
  | 0, bs => if bs.isEmpty then some [] else none
  | count + 1, bs =>
    (readString? bs).bind fun (first, rest) => (readStrings? count rest).map (first :: ·)

/-- A list of so many byte strings and nothing after it. -/
def readList? (count : Nat) (bs : Bytes) : Option (List Bytes) :=
  (readMark? 0xc0 bs).bind fun (length, body) =>
    if body.length = length then readStrings? count body else none

/-! ## Reading what was written -/

theorem take?_append (bs rest : Bytes) : take? bs.length (bs ++ rest) = some (bs, rest) := by
  simp [take?]

theorem readMark?_lengthMark (base : Nat) {length : Nat} (hbase : base + 63 < 256)
    (hlength : length < UInt64.size) (rest : Bytes) :
    readMark? base (lengthMark base length ++ rest) = some (length, rest) := by
  unfold lengthMark
  split
  · next hshort =>
    have hmark : (UInt8.ofNat (base + length)).toNat = base + length := by
      rw [UInt8.toNat_ofNat']
      omega
    simp only [List.cons_append, List.nil_append, readMark?, hmark]
    rw [if_neg (by omega), if_pos (by omega), Nat.add_sub_cancel_left]
  · next hlong =>
    have hpos := length_bytesOf_pos (n := length) (by omega)
    have hle := length_bytesOf_le hlength
    have hmark : (UInt8.ofNat (base + 55 + (bytesOf length).length)).toNat =
        base + 55 + (bytesOf length).length := by
      rw [UInt8.toNat_ofNat']
      omega
    simp only [List.cons_append, readMark?, hmark]
    rw [if_neg (by omega), if_neg (by omega), Nat.add_sub_cancel_left, take?_append]
    simp [toNat_bytesOf]

/-- A small byte is no mark. -/
theorem readString?_of_mark {bs rest : Bytes} {length : Nat}
    (hmark : readMark? 0x80 bs = some (length, rest)) : readString? bs = take? length rest := by
  cases bs with
  | nil => simp [readMark?] at hmark
  | cons b bs =>
    have hb : ¬ b < 0x80 := by
      intro hsmall
      have hbyte : b.toNat < 0x80 := UInt8.lt_iff_toNat_lt.mp hsmall
      rw [readMark?, if_pos (Or.inl hbyte)] at hmark
      cases hmark
    rw [readString?, if_neg hb, hmark]
    rfl

theorem string_cases (bs : Bytes) :
    (∃ b, bs = [b] ∧ b < 0x80 ∧ string bs = [b]) ∨
      string bs = lengthMark 0x80 bs.length ++ bs := by
  unfold string
  split
  · next b =>
    split
    · next hb => exact Or.inl ⟨b, rfl, hb, rfl⟩
    · exact Or.inr rfl
  · exact Or.inr rfl

theorem readString?_string {bs : Bytes} (hbs : bs.length < UInt64.size) (rest : Bytes) :
    readString? (string bs ++ rest) = some (bs, rest) := by
  rcases string_cases bs with ⟨b, rfl, hb, hstring⟩ | hstring <;> rw [hstring]
  · rw [List.cons_append, List.nil_append, readString?, if_pos hb]
  · have hmark := readMark?_lengthMark 0x80 (by decide) hbs (bs ++ rest)
    rw [List.append_assoc, readString?_of_mark hmark, take?_append]

theorem readStrings?_flatten {items : List Bytes}
    (hitems : ∀ bs ∈ items, bs.length < UInt64.size) :
    readStrings? items.length (items.map string).flatten = some items := by
  induction items with
  | nil => rfl
  | cons bs items ih =>
    have ih := ih fun c hc => hitems c (List.mem_cons_of_mem _ hc)
    rw [List.map_cons, List.flatten_cons, List.length_cons, readStrings?,
      readString?_string (hitems bs List.mem_cons_self)]
    simp [ih]

theorem length_le_string (bs : Bytes) : bs.length ≤ (string bs).length := by
  rcases string_cases bs with ⟨b, rfl, -, hstring⟩ | hstring <;> simp [hstring]

/-- Each string is no longer than a list that has it. -/
theorem length_le_list {items : List Bytes} {bs : Bytes} (h : bs ∈ items) :
    bs.length ≤ (list (items.map string)).length := by
  have hmem : string bs ∈ items.map string := List.mem_map_of_mem h
  have hflat := (List.sublist_flatten_of_mem hmem).length_le
  have hstring := length_le_string bs
  rw [list, List.length_append]
  omega

/-- A list of strings reads back, unless it is too long for a mark. -/
theorem readList?_list {items : List Bytes}
    (hlength : (list (items.map string)).length < UInt64.size) :
    readList? items.length (list (items.map string)) = some items := by
  have hbody : (items.map string).flatten.length < UInt64.size := by
    rw [list, List.length_append] at hlength
    omega
  have hmark := readMark?_lengthMark 0xc0 (by decide) hbody (items.map string).flatten
  rw [readList?, list, hmark, Option.bind_some]
  dsimp only
  rw [if_pos rfl]
  exact readStrings?_flatten fun bs hbs => Nat.lt_of_le_of_lt (length_le_list hbs) hlength

end Rlp

end ChainAccess
