import ChainAccess.Json.Printer
import ChainAccess.Proofs.Json.Texts
import Mathlib.Tactic.Common
-- Reading what was written: the compact text of a value gives the value, as long as its
-- numbers are whole and no more lists and objects are open at once than the reader takes.

namespace ChainAccess.Json

variable {n : Nat}

/-! ## Numbers -/

theorem toDigits_ten_cases (n : Nat) :
    (n = 0 ∧ Nat.toDigits 10 n = ['0']) ∨
      ∃ c ds, Nat.toDigits 10 n = c :: ds ∧ c.isDigit = true ∧ c ≠ '0' ∧
        ∀ d ∈ ds, d.isDigit = true := by
  have hdigit : ∀ k < 10, k.digitChar.isDigit = true := by decide
  have hzero : ∀ k < 10, k ≠ 0 → k.digitChar ≠ '0' := by decide
  induction n using Nat.base_induction 10 (by decide) with
  | single m hm =>
    rw [Nat.toDigits_of_lt_base hm]
    by_cases h : m = 0
    · exact Or.inl ⟨h, by rw [h]; rfl⟩
    · exact Or.inr ⟨_, _, rfl, hdigit m hm, hzero m hm h, by simp⟩
  | digit m k hk hm ih =>
    rcases ih with ⟨rfl, -⟩ | ⟨c, ds, hcs, hc, hne, hds⟩
    · exact absurd hm (by decide)
    · refine Or.inr ⟨c, ds ++ [k.digitChar], ?_, hc, hne, ?_⟩
      · rw [← Nat.toDigits_append_toDigits (by decide) hm hk, Nat.toDigits_of_lt_base hk, hcs,
          List.cons_append]
      · intro d hd
        rcases List.mem_append.mp hd with hd | hd
        · exact hds d hd
        · rw [List.mem_singleton.mp hd]
          exact hdigit k hk

theorem ofLiteral_digits (n : UInt64) :
    Number.ofLiteral ⟨false, Nat.toDigits 10 n.toNat, none, none⟩ = .nat n := by
  have hvalue : Number.digitsValue (Nat.toDigits 10 n.toNat) = n.toNat :=
    Nat.ofDigitChars_ten_toDigits
  simp [Number.ofLiteral, hvalue, n.toNat_lt_size]

theorem isWhole_toDigits (n : Nat) : IsWhole (Nat.toDigits 10 n) := by
  rcases toDigits_ten_cases n with ⟨-, hdigits⟩ | ⟨c, ds, hdigits, hc, hne, hds⟩
  · exact hdigits ▸ .zero
  · exact hdigits ▸ .digits hc hne hds

/-- The digits of a number are its text. -/
theorem leads_nat (n : Nat) (k : UInt64) :
    Leads n (Utf8.letters (Number.nat k).text.toList) (.num (.nat k)) := by
  have htext : (Number.nat k).text.toList = Nat.toDigits 10 k.toNat := Nat.toList_repr
  have hplain : ∀ c ∈ Nat.toDigits 10 k.toNat, c.toNat < 128 := by
    intro c hc
    have hdigit := Nat.isDigit_of_mem_toDigits (b := 10) (by decide) (by decide) hc
    simp only [Char.isDigit, Bool.and_eq_true, decide_eq_true_eq, UInt32.le_iff_toNat_le] at hdigit
    exact Nat.lt_of_le_of_lt hdigit.2 (by decide)
  have hunsigned : ([] : List Char) ∈ [[], ['-']] := List.mem_cons_self
  obtain ⟨place, hplace, hafter⟩ := exists_after_whole hunsigned (isWhole_toDigits k.toNat)
  have hend : place.mayEnd = true := by rcases hplace with rfl | rfl <;> rfl
  have hliteral : inOrder ⟨false, (Nat.toDigits 10 k.toNat).reverse, none, none⟩ =
      ⟨false, Nat.toDigits 10 k.toNat, none, none⟩ := by simp [inOrder]
  intro stack mayClose _
  have hbehind :=
    behind_number hend ⟨false, (Nat.toDigits 10 k.toNat).reverse, none, none⟩ stack
  rw [hliteral, ofLiteral_digits] at hbehind
  rw [htext, Utf8.letters_of_plain hplain, ← List.nil_append (Nat.toDigits 10 k.toNat), hafter]
  exact hbehind

/-! ## Strings -/

theorem spells_plain {bs : List UInt8} (h : ∀ b ∈ bs, IsPlain (Utf8.letter b)) :
    Spells (bs.map Utf8.letter) bs := by
  induction bs with
  | nil => exact .nil
  | cons b rest ih =>
    have hrest := ih fun x hx => h x (List.mem_cons_of_mem b hx)
    have hfirst := Spells.plain (h b List.mem_cons_self) hrest
    rwa [Utf8.ofNat_letter] at hfirst

/-- The bytes of a character that needs no escape need none. -/
theorem isPlain_letter {c : Char} (hc : IsPlain c) {b : UInt8}
    (hb : b ∈ String.utf8EncodeChar c) : IsPlain (Utf8.letter b) := by
  by_cases hplain : c.toNat < 128
  · rw [Utf8.utf8EncodeChar_of_plain hplain, List.mem_singleton] at hb
    have hletter : Utf8.letter b = c := by
      rw [hb, Utf8.letter, UInt8.toNat_ofNat_of_lt' (Nat.lt_trans hplain (by decide)),
        Char.ofNat_toNat]
    rwa [hletter]
  · have hle := Utf8.le_of_mem_utf8EncodeChar (Nat.le_of_not_lt hplain) b hb
    rw [← Utf8.toNat_letter] at hle
    refine ⟨Nat.le_trans (by decide) hle, ?_, ?_⟩ <;> rintro heq <;> rw [heq] at hle <;>
      exact absurd hle (by decide)

/-- The digits of a control character. -/
theorem isCode_control {n : Nat} (hn : n < 0x20) :
    IsCode ['0', '0', if n < 0x10 then '0' else '1', (Nat.toDigits 16 (n % 16)).headD '0'] n := by
  have hhigh : ∀ n < 0x20, codeDigit? (if n < 0x10 then '0' else '1') = some (n / 16) := by decide
  have hlow : ∀ n < 16, codeDigit? ((Nat.toDigits 16 n).headD '0') = some n := by decide
  have hzero : IsHexDigit '0' 0 := codeDigit?_eq_some_iff.mp rfl
  have hdigits := (((HexDigits.nil.concat hzero).concat hzero).concat
    (codeDigit?_eq_some_iff.mp (hhigh n hn))).concat
      (codeDigit?_eq_some_iff.mp (hlow (n % 16) (Nat.mod_lt n (by decide))))
  have hvalue : 16 * (16 * (16 * (16 * 0 + 0) + 0) + n / 16) + n % 16 = n := by omega
  rw [hvalue] at hdigits
  exact ⟨hdigits, rfl⟩

theorem spells_escapedChar (c : Char) :
    Spells (Utf8.letters (escapedChar c)) (String.utf8EncodeChar c) := by
  have hescape : ∀ {d : Char}, (d, c) ∈ escapes → d.toNat < 128 →
      Spells (Utf8.letters ['\\', d]) (String.utf8EncodeChar c) := by
    intro d hd hplain
    rw [Utf8.letters_cons_of_plain (by decide), Utf8.letters_cons_of_plain hplain,
      ← List.append_nil (String.utf8EncodeChar c)]
    exact .escape hd .nil
  unfold escapedChar
  split
  · next h => exact hescape (by simp [h, escapes]) (by decide)
  split
  · next h => exact hescape (by simp [h, escapes]) (by decide)
  split
  · next h => exact hescape (by simp [h, escapes]) (by decide)
  split
  · next h => exact hescape (by simp [h, escapes]) (by decide)
  split
  · next h => exact hescape (by simp [h, escapes]) (by decide)
  split
  · next h => exact hescape (by simp [h, escapes]) (by decide)
  split
  · next h => exact hescape (by simp [h, escapes]) (by decide)
  split
  · next hcontrol =>
    have hlow : ∀ n < 0x20, ((Nat.toDigits 16 (n % 16)).headD '0').toNat < 128 := by decide
    have hhigh : (if c.toNat < 0x10 then '0' else '1').toNat < 128 := by split <;> decide
    have hcode := Spells.code (isCode_control hcontrol) (by unfold IsHigh; omega)
      (by unfold IsLow; omega) .nil
    have hplain : ∀ d ∈ ['\\', 'u', '0', '0', if c.toNat < 0x10 then '0' else '1',
        (Nat.toDigits 16 (c.toNat % 16)).headD '0'], d.toNat < 128 := by
      simp only [List.forall_mem_cons]
      exact ⟨by decide, by decide, by decide, by decide, hhigh, hlow _ hcontrol,
        fun _ hd => nomatch hd⟩
    rw [Utf8.letters_of_plain hplain]
    rwa [Char.ofNat_toNat, List.append_nil, List.append_nil] at hcode
  · next hquote hback _ _ _ _ _ hcontrol =>
    have hplain : IsPlain c := ⟨Nat.le_of_not_lt hcontrol, hquote, hback⟩
    rw [Utf8.letters, List.flatMap_singleton]
    exact spells_plain fun b hb => isPlain_letter hplain hb

theorem quotes_quoted (s : String) : Quotes s (Utf8.letters (quoted s).toList) := by
  have hspells : ∀ cs : List Char,
      Spells (Utf8.letters (cs.flatMap escapedChar)) (cs.flatMap String.utf8EncodeChar) := by
    intro cs
    induction cs with
    | nil => exact .nil
    | cons c rest ih =>
      rw [List.flatMap_cons, Utf8.letters_append, List.flatMap_cons]
      exact (spells_escapedChar c).append ih
  have hbody := hspells s.toList
  rw [← Utf8.encode_eq_flatMap] at hbody
  unfold quoted
  rw [String.toList_ofList, List.cons_append, Utf8.letters_cons_of_plain (by decide),
    Utf8.letters_append, Utf8.letters_singleton (by decide)]
  exact .body hbody

/-! ## Lists and objects -/

/-- A part with no blanks around it. -/
def Padded.bare (cs : List Char) : Padded := ⟨[], cs, [], blank_nil, blank_nil⟩

theorem Padded.text_bare (cs : List Char) : (Padded.bare cs).text = cs := by
  simp [Padded.text, Padded.bare]

/-- The bytes of a value's text, as characters. -/
def writtenChars (v : Json) : List Char := Utf8.letters v.compact.toList

/-- A member as it is written. -/
def writtenMember (m : String × Json) : Member :=
  ⟨.bare (Utf8.letters (quoted m.1).toList), .bare (writtenChars m.2)⟩

theorem writtenMember_text (m : String × Json) : (writtenMember m).text =
    Utf8.letters (quoted m.1).toList ++ ':' :: writtenChars m.2 := by
  simp only [Member.text, writtenMember, Padded.text_bare]

theorem letters_compactItems {items : List Json} (hne : items ≠ []) :
    Utf8.letters (compactItems items).toList = joined (items.map writtenChars) := by
  induction items with
  | nil => exact absurd rfl hne
  | cons v rest ih =>
    cases rest with
    | nil =>
      rw [compactItems, List.map_singleton, joined_singleton]
      rfl
    | cons w rest =>
      have htext : compactItems (v :: w :: rest) =
          v.compact ++ "," ++ compactItems (w :: rest) := by
        rw [compactItems]
        simp
      have hcomma : ",".toList = [','] := rfl
      rw [htext, String.toList_append, String.toList_append, hcomma, List.append_assoc,
        List.singleton_append, Utf8.letters_append, Utf8.letters_cons_of_plain (by decide),
        ih (by simp)]
      rfl

theorem letters_compactMembers {members : List (String × Json)} (hne : members ≠ []) :
    Utf8.letters (compactMembers members).toList =
      joined (members.map fun m => (writtenMember m).text) := by
  induction members with
  | nil => exact absurd rfl hne
  | cons m rest ih =>
    have hcolon : ":".toList = [':'] := rfl
    have hcomma : ",".toList = [','] := rfl
    cases rest with
    | nil =>
      rw [compactMembers, List.map_singleton, joined_singleton, writtenMember_text,
        String.toList_append, String.toList_append, hcolon, List.append_assoc,
        List.singleton_append, Utf8.letters_append, Utf8.letters_cons_of_plain (by decide)]
      rfl
    | cons k rest =>
      have htext : compactMembers (m :: k :: rest) =
          quoted m.1 ++ ":" ++ m.2.compact ++ "," ++ compactMembers (k :: rest) := by
        rw [compactMembers]
        simp
      simp only [htext, String.toList_append, hcolon, hcomma, List.append_assoc,
        List.cons_append, List.nil_append]
      rw [List.map_cons, List.map_cons, joined_cons_cons, writtenMember_text, Utf8.letters_append,
        Utf8.letters_cons_of_plain (by decide), Utf8.letters_append,
        Utf8.letters_cons_of_plain (by decide), ih (by simp), List.append_assoc]
      rfl

/-! ## The law -/

/-- A value with whole numbers alone, whose text has at most `n` lists and objects
open at once. -/
inductive Nests : Nat → Json → Prop
  | null {n : Nat} : Nests n .null
  | bool {n : Nat} (b : Bool) : Nests n (.bool b)
  | nat {n : Nat} (k : UInt64) : Nests n (.num (.nat k))
  | str {n : Nat} (s : String) : Nests n (.str s)
  | arr {n : Nat} {items : List Json} (h : ∀ v ∈ items, Nests n v) : Nests (n + 1) (.arr items)
  | obj {n : Nat} {members : List (String × Json)} (h : ∀ m ∈ members, Nests n m.2) :
    Nests (n + 1) (.obj members)

variable {v : Json}

theorem leads_arr {items : List Json} (hroom : n < maxOpen)
    (hitems : ∀ v ∈ items, Leads (n + 1) (writtenChars v) v) :
    Leads n (writtenChars (.arr items)) (.arr items) := by
  have hopened : Frame.openedAt n (.list []) = .list [] := if_pos hroom
  have htext : writtenChars (.arr items) =
      '[' :: (Utf8.letters (compactItems items).toList ++ [']']) := by
    have hopen : "[".toList = ['['] := rfl
    have hclose : "]".toList = [']'] := rfl
    rw [writtenChars, compact, String.toList_append, String.toList_append, hopen, hclose,
      List.singleton_append, List.cons_append, Utf8.letters_cons_of_plain (by decide),
      Utf8.letters_append, Utf8.letters_singleton (by decide)]
  rw [htext]
  by_cases hne : items = []
  · subst hne
    have hempty : Leads n ('[' :: ([] ++ [']'])) _ := leads_emptyList blank_nil
    rwa [hopened] at hempty
  · let parts : List (Json × Padded) := items.map fun v => (v, .bare (writtenChars v))
    have hparts : ∀ i ∈ parts, Leads (n + 1) i.2.core i.1 := by
      intro i hi
      obtain ⟨v, hv, rfl⟩ := List.mem_map.mp hi
      exact hitems v hv
    have hlist := leads_items hroom (by simpa [parts] using hne) hparts
    have hvalues : parts.map Prod.fst = items := by simp [parts, Function.comp_def]
    have htexts : parts.map (fun i => i.2.text) = items.map writtenChars := by
      simp [parts, Function.comp_def, Padded.text_bare]
    rwa [htexts, ← letters_compactItems hne, hvalues] at hlist

theorem leads_obj {members : List (String × Json)} (hroom : n < maxOpen)
    (hmembers : ∀ m ∈ members, Leads (n + 1) (writtenChars m.2) m.2) :
    Leads n (writtenChars (.obj members)) (.obj members) := by
  have hopened : Frame.openedAt n (.record [] none) = .record [] none := if_pos hroom
  have htext : writtenChars (.obj members) =
      '\x7b' :: (Utf8.letters (compactMembers members).toList ++ ['\x7d']) := by
    have hopen : "\x7b".toList = ['\x7b'] := rfl
    have hclose : "\x7d".toList = ['\x7d'] := rfl
    rw [writtenChars, compact, String.toList_append, String.toList_append, hopen, hclose,
      List.singleton_append, List.cons_append, Utf8.letters_cons_of_plain (by decide),
      Utf8.letters_append, Utf8.letters_singleton (by decide)]
  rw [htext]
  by_cases hne : members = []
  · subst hne
    have hempty : Leads n ('\x7b' :: ([] ++ ['\x7d'])) _ := leads_emptyObject blank_nil
    rwa [hopened] at hempty
  · let parts : List ((String × Json) × Member) := members.map fun m => (m, writtenMember m)
    have hnames : ∀ m ∈ parts, Quotes m.1.1 m.2.name.core := by
      intro m hm
      obtain ⟨k, -, rfl⟩ := List.mem_map.mp hm
      dsimp only [writtenMember, Padded.bare]
      exact quotes_quoted k.1
    have hvalues : ∀ m ∈ parts, Leads (n + 1) m.2.value.core m.1.2 := by
      intro m hm
      obtain ⟨k, hk, rfl⟩ := List.mem_map.mp hm
      exact hmembers k hk
    have hobject := leads_members hroom (by simpa [parts] using hne) hnames hvalues
    have hfirsts : parts.map Prod.fst = members := by simp [parts, Function.comp_def]
    have htexts : parts.map (fun m => m.2.text) =
        members.map fun m => (writtenMember m).text := by
      simp [parts, Function.comp_def]
    rwa [htexts, ← letters_compactMembers hne, hfirsts] at hobject

/-- The text of a value is read as the value, by induction on how the value nests; what
is open around it and what it opens itself fit the reader together. -/
theorem Nests.leads {k : Nat} (h : Nests k v) (hroom : n + k ≤ maxOpen) :
    Leads n (writtenChars v) v := by
  induction h generalizing n with
  | null =>
    have hplain : ∀ c ∈ ['n', 'u', 'l', 'l'], c.toNat < 128 := by simp
    have htext : writtenChars .null = ['n', 'u', 'l', 'l'] := Utf8.letters_of_plain hplain
    rw [htext]
    exact fun stack _ _ => behind_after .null stack
  | bool b =>
    have hplain : ∀ c ∈ ['f', 'a', 'l', 's', 'e'], c.toNat < 128 := by simp
    have hplain' : ∀ c ∈ ['t', 'r', 'u', 'e'], c.toNat < 128 := by simp
    have hfalse : writtenChars (.bool false) = ['f', 'a', 'l', 's', 'e'] :=
      Utf8.letters_of_plain hplain
    have htrue : writtenChars (.bool true) = ['t', 'r', 'u', 'e'] := Utf8.letters_of_plain hplain'
    cases b
    · rw [hfalse]
      exact fun stack _ _ => behind_after (.bool false) stack
    · rw [htrue]
      exact fun stack _ _ => behind_after (.bool true) stack
  | nat k => exact leads_nat n k
  | str s => exact (quotes_quoted s).leads
  | arr _ ih => exact leads_arr (by omega) fun v hv => ih v hv (by omega)
  | obj _ ih => exact leads_obj (by omega) fun m hm => ih m hm (by omega)

/-- From the compact text of a value that the reader can hold comes the value. -/
theorem read_compact {n : Nat} {v : Json} (h : Nests n v) (hroom : n ≤ maxOpen) :
    read v.compact = ⟨v, true⟩ := by
  have hbehind := h.leads (n := 0) (by omega) [] false rfl
  unfold read readBytes
  rw [Utf8.map_letter_encode]
  exact hbehind.finish rfl

theorem areItemsFaulty_eq_false_iff {items : List Json} :
    areItemsFaulty items = false ↔ ∀ v ∈ items, v.isFaulty = false := by
  induction items with
  | nil => simp [areItemsFaulty]
  | cons v rest ih => simp [areItemsFaulty, ih]

theorem areMembersFaulty_eq_false_iff {members : List (String × Json)} :
    areMembersFaulty members = false ↔ ∀ m ∈ members, m.2.isFaulty = false := by
  induction members with
  | nil => simp [areMembersFaulty]
  | cons m rest ih => rw [areMembersFaulty]; simp [ih]

theorem Nests.isFaulty_eq {n : Nat} {v : Json} (h : Nests n v) : v.isFaulty = false := by
  induction h with
  | null | bool | nat | str => rfl
  | arr _ ih => rwa [isFaulty, areItemsFaulty_eq_false_iff]
  | obj _ ih => rwa [isFaulty, areMembersFaulty_eq_false_iff]

/-- The value of a message that was written. -/
theorem parse?_compact {n : Nat} {v : Json} (h : Nests n v) (hroom : n ≤ maxOpen) :
    parse? v.compact = some v.normal := by
  unfold parse?
  rw [read_compact h hroom]
  simp [h.isFaulty_eq]

end ChainAccess.Json
