import ChainAccess.Json.Reader
import Mathlib.Tactic.Common
-- What JSON looks like, its bytes taken as characters. A string is looked at in two ways:
-- as one that stands for a text, and as one that is passed over, which need not stand for
-- any. Of a value that is passed over, its form alone is looked at: nothing else is asked
-- of its strings and numbers, and there is no end to how deep it nests.

namespace ChainAccess.Json

/-! ## Blanks and commas -/

/-- Blanks alone. -/
def Blank (cs : List Char) : Prop := ∀ c ∈ cs, c ∈ [' ', '\n', '\t', '\r']

/-- A part of a text, with the blanks around it. -/
structure Padded where
  before : List Char
  core : List Char
  after : List Char
  blank_before : Blank before
  blank_after : Blank after

def Padded.text (p : Padded) : List Char := p.before ++ p.core ++ p.after

/-- Texts with commas between them. -/
def joined (parts : List (List Char)) : List Char := [','].intercalate parts

/-! ## Numbers -/

def IsDigits (cs : List Char) : Prop := ∀ c ∈ cs, c.isDigit = true

/-- A whole number without needless zeros. -/
inductive IsWhole : List Char → Prop
  | zero : IsWhole ['0']
  | digits {c : Char} {cs : List Char} : c.isDigit = true → c ≠ '0' → IsDigits cs →
      IsWhole (c :: cs)

inductive IsFraction : List Char → Prop
  | absent : IsFraction []
  | digits {c : Char} {cs : List Char} : IsDigits (c :: cs) → IsFraction ('.' :: c :: cs)

inductive IsExponent : List Char → Prop
  | absent : IsExponent []
  | digits {e c : Char} {sign cs : List Char} : e ∈ ['e', 'E'] → sign ∈ [[], ['+'], ['-']] →
      IsDigits (c :: cs) → IsExponent (e :: (sign ++ c :: cs))

/-- The text of a number, of whatever size. -/
inductive IsNumber : List Char → Prop
  | parts {sign whole fraction exponent : List Char} : sign ∈ [[], ['-']] → IsWhole whole →
      IsFraction fraction → IsExponent exponent →
      IsNumber (sign ++ (whole ++ (fraction ++ exponent)))

/-! ## Strings -/

/-- A character that stands for itself. -/
def IsPlain (c : Char) : Prop := 0x20 ≤ c.toNat ∧ c ≠ '"' ∧ c ≠ '\\'

/-- The letters behind a backslash and what they stand for. -/
def escapes : List (Char × Char) :=
  [('"', '"'), ('\\', '\\'), ('/', '/'), ('b', '\x08'), ('f', '\x0c'), ('n', '\n'), ('r', '\r'),
    ('t', '\t')]

/-- The digit is that of a number below sixteen, in either case. -/
def IsHexDigit (c : Char) (n : Nat) : Prop :=
  n < 16 ∧ (c = n.digitChar ∨ c = n.digitChar.toUpper)

/-- Digits to the base sixteen and the number that they write. -/
inductive HexDigits : List Char → Nat → Prop
  | nil : HexDigits [] 0
  | concat {cs : List Char} {c : Char} {n d : Nat} : HexDigits cs n → IsHexDigit c d →
      HexDigits (cs ++ [c]) (16 * n + d)

/-- The digits of a code. -/
def IsCode (cs : List Char) (n : Nat) : Prop := HexDigits cs n ∧ cs.length = 4

def IsHigh (n : Nat) : Prop := 0xd800 ≤ n ∧ n ≤ 0xdbff

def IsLow (n : Nat) : Prop := 0xdc00 ≤ n ∧ n ≤ 0xdfff

/-- What stands between the quotes of a string, and the bytes that it stands for. -/
inductive Spells : List Char → List UInt8 → Prop
  | nil : Spells [] []
  | plain {c : Char} {cs : List Char} {bs : List UInt8} : IsPlain c → Spells cs bs →
      Spells (c :: cs) (UInt8.ofNat c.toNat :: bs)
  | escape {c d : Char} {cs : List Char} {bs : List UInt8} : (c, d) ∈ escapes → Spells cs bs →
      Spells ('\\' :: c :: cs) (String.utf8EncodeChar d ++ bs)
  | code {ds cs : List Char} {n : Nat} {bs : List UInt8} : IsCode ds n → ¬ IsHigh n →
      ¬ IsLow n → Spells cs bs →
      Spells ('\\' :: 'u' :: (ds ++ cs)) (String.utf8EncodeChar (Char.ofNat n) ++ bs)
  | pair {ds es cs : List Char} {n k : Nat} {bs : List UInt8} : IsCode ds n → IsHigh n →
      IsCode es k → IsLow k → Spells cs bs →
      Spells ('\\' :: 'u' :: (ds ++ '\\' :: 'u' :: (es ++ cs)))
        (String.utf8EncodeChar (Char.ofNat (0x10000 + (n - 0xd800) * 0x400 + (k - 0xdc00))) ++ bs)

/-- What may stand between the quotes of a string that is passed over. -/
inductive IsBody : List Char → Prop
  | nil : IsBody []
  | plain {c : Char} {cs : List Char} : IsPlain c → IsBody cs → IsBody (c :: cs)
  | escape {c d : Char} {cs : List Char} : (c, d) ∈ escapes → IsBody cs →
      IsBody ('\\' :: c :: cs)
  | code {ds cs : List Char} {n : Nat} : IsCode ds n → IsBody cs →
      IsBody ('\\' :: 'u' :: (ds ++ cs))

/-- The string stands for the text. -/
inductive Quotes (s : String) : List Char → Prop
  | body {cs : List Char} : Spells cs (Utf8.encode s) → Quotes s ('"' :: (cs ++ ['"']))

/-- A string, whether or not it stands for a text. -/
inductive IsString : List Char → Prop
  | body {cs : List Char} : IsBody cs → IsString ('"' :: (cs ++ ['"']))

/-! ## Values -/

/-- A member of an object. -/
structure Member where
  name : Padded
  value : Padded

def Member.text (m : Member) : List Char := m.name.text ++ ':' :: m.value.text

/-- A value that is passed over. -/
inductive IsValue : List Char → Prop
  | word {s : String} : s ∈ ["null", "true", "false"] → IsValue s.toList
  | number {cs : List Char} : IsNumber cs → IsValue cs
  | string {cs : List Char} : IsString cs → IsValue cs
  | emptyList {ws : List Char} : Blank ws → IsValue ('[' :: (ws ++ [']']))
  | list {items : List Padded} : items ≠ [] → (∀ p ∈ items, IsValue p.core) →
      IsValue ('[' :: (joined (items.map Padded.text) ++ [']']))
  | emptyObject {ws : List Char} : Blank ws → IsValue ('\x7b' :: (ws ++ ['\x7d']))
  | object {members : List Member} : members ≠ [] → (∀ m ∈ members, IsString m.name.core) →
      (∀ m ∈ members, IsValue m.value.core) →
      IsValue ('\x7b' :: (joined (members.map Member.text) ++ ['\x7d']))

/-! ## The parts in use -/

theorem isBlank_iff {c : Char} : isBlank c = true ↔ c ∈ [' ', '\n', '\t', '\r'] := by
  simp [isBlank, or_assoc]

theorem blank_nil : Blank [] := fun _ hc => nomatch hc

theorem Blank.append {ws vs : List Char} (h : Blank ws) (h' : Blank vs) : Blank (ws ++ vs) := by
  intro c hc
  rcases List.mem_append.mp hc with hc | hc
  · exact h c hc
  · exact h' c hc

theorem blank_singleton {c : Char} (h : isBlank c = true) : Blank [c] := by
  intro d hd
  rw [List.mem_singleton.mp hd]
  exact isBlank_iff.mp h

theorem joined_singleton (t : List Char) : joined [t] = t := List.intercalate_singleton

theorem joined_cons_cons (t u : List Char) (ts : List (List Char)) :
    joined (t :: u :: ts) = t ++ ',' :: joined (u :: ts) := by
  unfold joined
  rw [List.intercalate_cons_cons, List.append_assoc]
  rfl

theorem Spells.append {as cs : List Char} {bs ds : List UInt8} (h : Spells as bs)
    (h' : Spells cs ds) : Spells (as ++ cs) (bs ++ ds) := by
  induction h with
  | nil => exact h'
  | plain hc _ ih => exact .plain hc ih
  | escape hc _ ih =>
    rw [List.append_assoc]
    exact .escape hc ih
  | code hcode hhigh hlow _ ih =>
    rw [List.cons_append, List.cons_append, List.append_assoc, List.append_assoc]
    exact .code hcode hhigh hlow ih
  | pair hcode hhigh hcode' hlow _ ih =>
    simp only [List.cons_append, List.append_assoc]
    exact .pair hcode hhigh hcode' hlow ih

theorem unescape?_eq_some_iff {c d : Char} : unescape? c = some d ↔ (c, d) ∈ escapes := by
  unfold unescape? escapes
  constructor
  · intro h
    repeat' split at h
    all_goals cases h
    all_goals simp [*]
  · intro h
    simp only [List.mem_cons, Prod.mk.injEq, List.not_mem_nil, or_false] at h
    rcases h with h | h | h | h | h | h | h | h <;> obtain ⟨rfl, rfl⟩ := h <;> rfl

theorem ne_u_of_mem_escapes {c d : Char} (h : (c, d) ∈ escapes) : c ≠ 'u' := by
  rintro rfl
  have hall : ∀ p ∈ escapes, p.1 ≠ 'u' := by
    unfold escapes
    simp
  exact hall _ h rfl

theorem codeDigit?_eq_some_iff {c : Char} {n : Nat} :
    codeDigit? c = some n ↔ IsHexDigit c n := by
  constructor
  · intro h
    have hdigit : ∀ m < 10, m.digitChar.toNat = m + 48 := by decide
    have hlower : ∀ m < 16, 10 ≤ m → m.digitChar.toNat = m + 87 := by decide
    have hupper : ∀ m < 16, 10 ≤ m → m.digitChar.toUpper.toNat = m + 55 := by decide
    unfold codeDigit? at h
    simp only [Char.le_def, UInt32.le_iff_toNat_le] at h
    split at h
    · next hc =>
      have hlo : 48 ≤ c.toNat := hc.1
      have hhi : c.toNat ≤ 57 := hc.2
      obtain rfl := Option.some.inj h
      refine ⟨by omega, .inl (Char.toNat_inj.mp ?_)⟩
      rw [hdigit _ (by omega)]
      omega
    · split at h
      · next hc =>
        have hlo : 97 ≤ c.toNat := hc.1
        have hhi : c.toNat ≤ 102 := hc.2
        obtain rfl := Option.some.inj h
        refine ⟨by omega, .inl (Char.toNat_inj.mp ?_)⟩
        rw [hlower _ (by omega) (by omega)]
        omega
      · split at h
        · next hc =>
          have hlo : 65 ≤ c.toNat := hc.1
          have hhi : c.toNat ≤ 70 := hc.2
          obtain rfl := Option.some.inj h
          refine ⟨by omega, .inr (Char.toNat_inj.mp ?_)⟩
          rw [hupper _ (by omega) (by omega)]
          omega
        · cases h
  · rintro ⟨hn, rfl | rfl⟩
    · exact (show ∀ m < 16, codeDigit? m.digitChar = some m by decide) n hn
    · exact (show ∀ m < 16, codeDigit? m.digitChar.toUpper = some m by decide) n hn

end ChainAccess.Json
