import ChainAccess.Proofs.Json.Grammar
import ChainAccess.Proofs.Text.Utf8
import Mathlib.Tactic.Common
-- What the machine of the reader makes of texts. Whatever is a value by its form takes the
-- machine behind some value, whatever lists and objects are open around it, and a string
-- that stands for a text gives this text.

namespace ChainAccess.Json

/-! ## Runs of the machine -/

/-- The machine after some characters. -/
def Reader.after (r : Reader) (cs : List Char) : Reader := cs.foldl Reader.step r

theorem Reader.after_nil (r : Reader) : r.after [] = r := rfl

theorem Reader.after_cons (r : Reader) (c : Char) (cs : List Char) :
    r.after (c :: cs) = (r.step c).after cs := rfl

theorem Reader.after_append (r : Reader) (cs ds : List Char) :
    r.after (cs ++ ds) = (r.after cs).after ds := List.foldl_append

theorem Reader.after_blank {r : Reader} (h : ∀ c, isBlank c = true → r.step c = r)
    {ws : List Char} (hws : Blank ws) : r.after ws = r := by
  induction ws with
  | nil => rfl
  | cons c rest ih =>
    rw [Reader.after_cons, h c (isBlank_iff.mpr (hws c List.mem_cons_self)),
      ih fun d hd => hws d (List.mem_cons_of_mem c hd)]

/-- The characters that may follow a value. -/
def Follows (c : Char) : Prop := isBlank c = true ∨ c ∈ [',', ']', '\x7d']

/-- The machine stands behind a value: what comes next ends it, be it a character or
the end of the text. -/
structure Reader.Behind (r : Reader) (v : Json) (stack : List Frame) : Prop where
  step : ∀ c, Follows c → r.step c = Reader.afterValue v stack c
  finish : stack = [] → r.finish = ⟨v, true⟩

theorem behind_after (v : Json) (stack : List Frame) :
    Reader.Behind ⟨.after v, stack⟩ v stack where
  step _ _ := rfl
  finish h := by
    subst h
    rfl

theorem afterValue_of_blank {c : Char} (h : isBlank c = true) (v : Json) (stack : List Frame) :
    Reader.afterValue v stack c = ⟨.after v, stack⟩ := by
  unfold Reader.afterValue
  rw [if_pos h]

variable {r : Reader} {v : Json} {stack : List Frame} {ws cs : List Char} {n : Nat}

theorem Reader.Behind.after_blank (h : r.Behind v stack) (hws : Blank ws) :
    (r.after ws).Behind v stack := by
  cases ws with
  | nil => exact h
  | cons c rest =>
    have hc := isBlank_iff.mpr (hws c List.mem_cons_self)
    have hrest : Reader.after ⟨.after v, stack⟩ rest = ⟨.after v, stack⟩ :=
      Reader.after_blank (r := ⟨.after v, stack⟩) (fun d hd => afterValue_of_blank hd v stack)
        fun d hd => hws d (List.mem_cons_of_mem c hd)
    rw [Reader.after_cons, h.step c (.inl hc), afterValue_of_blank hc, hrest]
    exact behind_after v stack

/-- Where `n` lists and objects are open, the text takes the machine behind the value. -/
def Leads (n : Nat) (cs : List Char) (v : Json) : Prop :=
  ∀ (stack : List Frame) (mayClose : Bool), stack.length = n →
    (Reader.after ⟨.value mayClose, stack⟩ cs).Behind v stack

theorem startValue_of_blank {c : Char} (h : isBlank c = true) (r : Reader) (mayClose : Bool) :
    r.startValue mayClose c = r := by
  unfold Reader.startValue
  dsimp only
  rw [if_pos h]

theorem Leads.padded {p : Padded} (h : Leads n p.core v) : Leads n p.text v := by
  intro stack mayClose hstack
  have hbefore : Reader.after ⟨.value mayClose, stack⟩ p.before = ⟨.value mayClose, stack⟩ :=
    Reader.after_blank (r := ⟨.value mayClose, stack⟩)
      (fun c hc => startValue_of_blank hc _ mayClose) p.blank_before
  unfold Padded.text
  rw [List.append_assoc, Reader.after_append, hbefore, Reader.after_append]
  exact (h stack mayClose hstack).after_blank p.blank_after

/-! ## Strings -/

section

variable {isName : Bool} {done : List UInt8}

theorem after_hexDigits (h : HexDigits cs n) (hshort : cs.length < 4) (high : Option Nat)
    (stack : List Frame) (isName : Bool) (done : List UInt8) :
    Reader.after ⟨.string isName (.code 4 0 high) done, stack⟩ cs =
      ⟨.string isName (.code (4 - cs.length) n high) done, stack⟩ := by
  induction h with
  | nil => rfl
  | @concat cs c n d _ hdigit ih =>
    rw [List.length_append, List.length_singleton] at hshort
    have hmore : ¬ 4 - cs.length ≤ 1 := by omega
    rw [Reader.after_append, ih (by omega), Reader.after_cons, Reader.after_nil,
      List.length_append, List.length_singleton, Nat.sub_add_eq]
    simp only [Reader.step, Reader.inString, codeDigit?_eq_some_iff.mpr hdigit, hmore, if_false]

/-- The last digit ends a code. -/
theorem after_code (h : IsCode cs n) (high : Option Nat) (stack : List Frame) (isName : Bool)
    (done : List UInt8) :
    Reader.after ⟨.string isName (.code 4 0 high) done, stack⟩ cs =
      ⟨high.elim (endCode isName done) (endPair isName done) n, stack⟩ := by
  obtain ⟨hdigits, hlength⟩ := h
  cases hdigits with
  | nil => cases hlength
  | @concat cs c n d hdigits hdigit =>
    rw [List.length_append, List.length_singleton] at hlength
    have hlast : 4 - cs.length ≤ 1 := by omega
    rw [Reader.after_append, after_hexDigits hdigits (by omega), Reader.after_cons,
      Reader.after_nil]
    simp only [Reader.step, Reader.inString, codeDigit?_eq_some_iff.mpr hdigit, hlast, if_true]

theorem inText_of_plain {c : Char} (h : IsPlain c) :
    Reader.inText stack isName done c =
      ⟨.string isName .text (UInt8.ofNat c.toNat :: done), stack⟩ := by
  obtain ⟨hlow, hquote, hback⟩ := h
  unfold Reader.inText
  rw [if_neg hquote, if_neg hback, if_neg (Nat.not_lt.mpr hlow)]

theorem inEscape_of_mem {c d : Char} (h : (c, d) ∈ escapes) :
    Reader.inEscape stack isName done c = ⟨.string isName .text (addChar done d), stack⟩ := by
  unfold Reader.inEscape
  rw [if_neg (ne_u_of_mem_escapes h), unescape?_eq_some_iff.mpr h]

/-- A string is read as the bytes that it stands for. -/
theorem after_spells {bs : List UInt8} (h : Spells cs bs) (stack : List Frame) (isName : Bool)
    (done : List UInt8) :
    Reader.after ⟨.string isName .text done, stack⟩ cs =
      ⟨.string isName .text (bs.reverse ++ done), stack⟩ := by
  have hadd : ∀ (c : Char) (bs done : List UInt8),
      bs.reverse ++ addChar done c = (String.utf8EncodeChar c ++ bs).reverse ++ done := by
    intro c bs done
    rw [addChar, List.reverse_append, List.append_assoc]
  have hopen : ∀ (done : List UInt8) (cs : List Char),
      Reader.after ⟨.string isName .text done, stack⟩ ('\\' :: 'u' :: cs) =
        Reader.after ⟨.string isName (.code 4 0 none) done, stack⟩ cs := fun _ _ => rfl
  induction h generalizing done with
  | nil => rfl
  | plain hc _ ih =>
    have hstep : ∀ c : Char, Reader.step ⟨.string isName .text done, stack⟩ c =
        Reader.inText stack isName done c := fun _ => rfl
    rw [Reader.after_cons, hstep, inText_of_plain hc, ih, List.reverse_cons, List.append_assoc]
    rfl
  | @escape c d cs bs hescape _ ih =>
    have hstep : Reader.after ⟨.string isName .text done, stack⟩ ['\\', c] =
        ⟨.string isName .text (addChar done d), stack⟩ := inEscape_of_mem hescape
    rw [← hadd, ← ih, ← hstep]
    rfl
  | @code ds cs n bs hcode hhigh hlow _ ih =>
    have hend : endCode isName done n = .string isName .text (addChar done (Char.ofNat n)) :=
      (if_neg hhigh).trans (if_neg hlow)
    rw [hopen, Reader.after_append, after_code hcode, Option.elim_none, hend, ih, hadd]
  | @pair ds es cs n k bs hcode hhigh hcode' hlow _ ih =>
    have hend : endCode isName done n = .string isName (.pairEscape n) done := if_pos hhigh
    have hnext : ∀ cs : List Char,
        Reader.after ⟨.string isName (.pairEscape n) done, stack⟩ ('\\' :: 'u' :: cs) =
          Reader.after ⟨.string isName (.code 4 0 (some n)) done, stack⟩ cs := fun _ => rfl
    have hpair : endPair isName done n k = .string isName .text (addChar done
        (Char.ofNat (0x10000 + (n - 0xd800) * 0x400 + (k - 0xdc00)))) := if_pos hlow
    rw [hopen, Reader.after_append, after_code hcode, Option.elim_none, hend, hnext,
      Reader.after_append, after_code hcode', Option.elim_some, hpair, ih, hadd]

/-- Where a string may end. -/
def StringPlace.IsOpen (place : StringPlace) : Prop :=
  place = .text ∨ ∃ high, place = .pairEscape high

theorem endCode_isOpen (done : List UInt8) (code : Nat) :
    ∃ place done', place.IsOpen ∧
      ∀ isName, endCode isName done code = .string isName place done' := by
  unfold endCode
  split
  · exact ⟨_, _, .inr ⟨_, rfl⟩, fun _ => rfl⟩
  · split <;> exact ⟨_, _, .inl rfl, fun _ => rfl⟩

theorem endPair_isOpen (done : List UInt8) (high code : Nat) :
    ∃ place done', place.IsOpen ∧
      ∀ isName, endPair isName done high code = .string isName place done' := by
  unfold endPair
  split
  · exact ⟨_, _, .inl rfl, fun _ => rfl⟩
  · exact endCode_isOpen _ _

/-- Inside a string, the characters lead from where it may end to where it may end. -/
def StaysOpen (cs : List Char) : Prop :=
  ∀ (place : StringPlace) (done : List UInt8), place.IsOpen →
    ∃ place' done', place'.IsOpen ∧ ∀ stack isName,
      Reader.after ⟨.string isName place done, stack⟩ cs =
        ⟨.string isName place' done', stack⟩

theorem StaysOpen.append {ds : List Char} (hcs : StaysOpen cs) (hds : StaysOpen ds) :
    StaysOpen (cs ++ ds) := by
  intro place done hplace
  obtain ⟨place', done', hplace', hafter⟩ := hcs place done hplace
  obtain ⟨place'', done'', hplace'', hafter'⟩ := hds place' done' hplace'
  refine ⟨place'', done'', hplace'', fun stack isName => ?_⟩
  rw [Reader.after_append, hafter, hafter']

-- A character that follows one half of a pair stands behind the sign for the half that is lost.

theorem staysOpen_plain {c : Char} (h : IsPlain c) : StaysOpen [c] := by
  intro place done hplace
  rcases hplace with rfl | ⟨high, rfl⟩
  · exact ⟨_, _, .inl rfl, fun _ _ => inText_of_plain h⟩
  · refine ⟨.text, UInt8.ofNat c.toNat :: noText :: done, .inl rfl, fun stack isName => ?_⟩
    have hstep : Reader.step ⟨.string isName (.pairEscape high) done, stack⟩ c =
        Reader.inText stack isName (noText :: done) c := if_neg h.2.2
    exact hstep.trans (inText_of_plain h)

theorem staysOpen_escape {c d : Char} (h : (c, d) ∈ escapes) : StaysOpen ['\\', c] := by
  intro place done hplace
  rcases hplace with rfl | ⟨high, rfl⟩
  · exact ⟨_, _, .inl rfl, fun _ _ => inEscape_of_mem h⟩
  · refine ⟨.text, addChar (noText :: done) d, .inl rfl, fun stack isName => ?_⟩
    have hstep : Reader.step ⟨.string isName (.pairCode high) done, stack⟩ c =
        Reader.inEscape stack isName (noText :: done) c := if_neg (ne_u_of_mem_escapes h)
    exact hstep.trans (inEscape_of_mem h)

theorem staysOpen_code (h : IsCode cs n) : StaysOpen ('\\' :: 'u' :: cs) := by
  intro place done hplace
  rcases hplace with rfl | ⟨high, rfl⟩
  · obtain ⟨place', done', hplace', hend⟩ := endCode_isOpen done n
    refine ⟨place', done', hplace', fun stack isName => ?_⟩
    have hopen : Reader.after ⟨.string isName .text done, stack⟩ ('\\' :: 'u' :: cs) =
        Reader.after ⟨.string isName (.code 4 0 none) done, stack⟩ cs := rfl
    rw [hopen, after_code h, Option.elim_none, hend]
  · obtain ⟨place', done', hplace', hend⟩ := endPair_isOpen done high n
    refine ⟨place', done', hplace', fun stack isName => ?_⟩
    have hopen : Reader.after ⟨.string isName (.pairEscape high) done, stack⟩
          ('\\' :: 'u' :: cs) =
        Reader.after ⟨.string isName (.code 4 0 (some high)) done, stack⟩ cs := rfl
    rw [hopen, after_code h, Option.elim_some, hend]

/-- A string that is passed over goes on to where it may end. -/
theorem IsBody.staysOpen (h : IsBody cs) : StaysOpen cs := by
  induction h with
  | nil => exact fun place done hplace => ⟨place, done, hplace, fun _ _ => rfl⟩
  | plain hc _ ih => exact (staysOpen_plain hc).append ih
  | escape hescape _ ih => exact (staysOpen_escape hescape).append ih
  | code hcode _ ih => exact (staysOpen_code hcode).append ih

/-- The string takes the machine from its first quote to its end. -/
def Ends (cs : List Char) (t : Option String) : Prop :=
  ∀ (r : Reader) (isName : Bool), r.step '"' = ⟨.string isName .text [], r.stack⟩ →
    r.after cs = Reader.endString isName t r.stack

theorem Quotes.ends {s : String} (h : Quotes s cs) : Ends cs (some s) := by
  obtain ⟨hspells⟩ := h
  intro r isName hopen
  rw [Reader.after_cons, hopen, Reader.after_append, after_spells hspells, List.append_nil,
    Reader.after_cons, Reader.after_nil]
  simp only [Reader.step, Reader.inString, Reader.inText, if_true, List.reverse_reverse,
    Utf8.text?_encode]

theorem IsString.exists_ends (h : IsString cs) : ∃ t, Ends cs t := by
  obtain ⟨hbody⟩ := h
  obtain ⟨place, done, hplace, hafter⟩ := hbody.staysOpen .text [] (.inl rfl)
  rcases hplace with rfl | ⟨high, rfl⟩
  · refine ⟨Utf8.text? done.reverse, fun r isName hopen => ?_⟩
    rw [Reader.after_cons, hopen, Reader.after_append, hafter]
    rfl
  · refine ⟨Utf8.text? (noText :: done).reverse, fun r isName hopen => ?_⟩
    rw [Reader.after_cons, hopen, Reader.after_append, hafter]
    rfl

end

/-! ## Numbers -/

theorem ne_of_isDigit {c d : Char} (hc : c.isDigit = true) (hd : d.isDigit = false) : c ≠ d := by
  rintro rfl
  rw [hc] at hd
  cases hd

/-- A digit but zero begins a number. -/
theorem startValue_digit (r : Reader) (mayClose : Bool) {c : Char} (hc : c.isDigit = true)
    (hne : c ≠ '0') : r.startValue mayClose c =
      ⟨.number .whole ⟨false, [c], none, none⟩, r.stack⟩ := by
  have hother : ∀ d : Char, d.isDigit = false → c ≠ d := fun d hd => ne_of_isDigit hc hd
  have hblank : isBlank c = false := by
    simp [isBlank, hother ' ' rfl, hother '\n' rfl, hother '\t' rfl, hother '\r' rfl]
  simp [Reader.startValue, hblank, hc, hne, hother '"' rfl, hother '[' rfl, hother '\x7b' rfl,
    hother 't' rfl, hother 'f' rfl, hother 'n' rfl, hother '-' rfl]

theorem numberStep_whole {c : Char} (hc : c.isDigit = true) (l : Number.Literal) :
    numberStep .whole l c = some (.whole, { l with whole := c :: l.whole }) := by
  simp [numberStep, ne_of_isDigit hc (d := '.') rfl, ne_of_isDigit hc (d := 'e') rfl,
    ne_of_isDigit hc (d := 'E') rfl, hc]

theorem after_digits (stack : List Frame) (l : Number.Literal) (hcs : IsDigits cs) :
    Reader.after ⟨.number .whole l, stack⟩ cs =
      ⟨.number .whole { l with whole := cs.reverse ++ l.whole }, stack⟩ := by
  induction cs generalizing l with
  | nil => rfl
  | cons d rest ih =>
    have hnext : Reader.step ⟨.number .whole l, stack⟩ d =
        ⟨.number .whole { l with whole := d :: l.whole }, stack⟩ := by
      simp only [Reader.step, Reader.inNumber, numberStep_whole (hcs d List.mem_cons_self)]
    rw [Reader.after_cons, hnext, ih _ fun d hd => hcs d (List.mem_cons_of_mem _ hd),
      List.reverse_cons, List.append_assoc, List.singleton_append]

/-- Digits behind a point or in an exponent. -/
theorem exists_after_more (hcs : IsDigits cs) {place : NumberPlace}
    (hplace : place = .fraction ∨ place = .exponentDigits) (l : Number.Literal) :
    ∃ l', ∀ stack, Reader.after ⟨.number place l, stack⟩ cs = ⟨.number place l', stack⟩ := by
  induction cs generalizing l with
  | nil => exact ⟨l, fun _ => rfl⟩
  | cons d rest ih =>
    have hstep : ∃ l', numberStep place l d = some (place, l') := by
      rcases hplace with rfl | rfl <;> exact ⟨_, if_pos (hcs d List.mem_cons_self)⟩
    obtain ⟨l', hl'⟩ := hstep
    obtain ⟨l'', hl''⟩ := ih (fun d hd => hcs d (List.mem_cons_of_mem _ hd)) l'
    refine ⟨l'', fun stack => ?_⟩
    have hnext : Reader.step ⟨.number place l, stack⟩ d = ⟨.number place l', stack⟩ := by
      simp only [Reader.step, Reader.inNumber, hl']
    rw [Reader.after_cons, hnext, hl'']

/-- The whole part of a number is kept as it is. -/
theorem exists_after_whole {sign : List Char} (hsign : sign ∈ [[], ['-']]) (h : IsWhole cs) :
    ∃ place, (place = .zero ∨ place = .whole) ∧ ∀ stack mayClose,
      Reader.after ⟨.value mayClose, stack⟩ (sign ++ cs) =
        ⟨.number place ⟨!sign.isEmpty, cs.reverse, none, none⟩, stack⟩ := by
  simp only [List.mem_cons, List.not_mem_nil, or_false] at hsign
  cases h with
  | zero =>
    refine ⟨.zero, .inl rfl, fun stack mayClose => ?_⟩
    rcases hsign with rfl | rfl <;> rfl
  | @digits c cs hc hne hcs =>
    refine ⟨.whole, .inr rfl, fun stack mayClose => ?_⟩
    rcases hsign with rfl | rfl
    · have hstart : Reader.step ⟨.value mayClose, stack⟩ c =
          ⟨.number .whole ⟨false, [c], none, none⟩, stack⟩ := startValue_digit _ mayClose hc hne
      rw [List.nil_append, Reader.after_cons, hstart, after_digits stack _ hcs, List.reverse_cons]
      rfl
    · have hstart : Reader.after ⟨.value mayClose, stack⟩ ['-', c] =
          ⟨.number .whole ⟨true, [c], none, none⟩, stack⟩ := by
        have hstep : numberStep .minus ⟨true, [], none, none⟩ c =
            some (.whole, ⟨true, [c], none, none⟩) := (if_neg hne).trans (if_pos hc)
        rw [Reader.after_cons, Reader.after_cons, Reader.after_nil]
        show Reader.inNumber stack .minus ⟨true, [], none, none⟩ c = _
        simp only [Reader.inNumber, hstep]
      rw [show ['-'] ++ c :: cs = ['-', c] ++ cs from rfl, Reader.after_append, hstart,
        after_digits stack _ hcs, List.reverse_cons]
      rfl

theorem exists_after_fraction (h : IsFraction cs) {place : NumberPlace}
    (hplace : place = .zero ∨ place = .whole) (l : Number.Literal) :
    ∃ place' l', (place' = .zero ∨ place' = .whole ∨ place' = .fraction) ∧ ∀ stack,
      Reader.after ⟨.number place l, stack⟩ cs = ⟨.number place' l', stack⟩ := by
  cases h with
  | absent =>
    rcases hplace with rfl | rfl
    · exact ⟨.zero, l, .inl rfl, fun _ => rfl⟩
    · exact ⟨.whole, l, .inr (.inl rfl), fun _ => rfl⟩
  | @digits c cs hcs =>
    have hstep : ∃ l₁, numberStep .point { l with fraction := some [] } c = some (.fraction, l₁) :=
      ⟨_, if_pos (hcs c List.mem_cons_self)⟩
    obtain ⟨l₁, hl₁⟩ := hstep
    obtain ⟨l', hl'⟩ :=
      exists_after_more (fun d hd => hcs d (List.mem_cons_of_mem _ hd)) (.inl rfl) l₁
    refine ⟨.fraction, l', .inr (.inr rfl), fun stack => ?_⟩
    have hpoint : Reader.step ⟨.number place l, stack⟩ '.' =
        ⟨.number .point { l with fraction := some [] }, stack⟩ := by
      rcases hplace with rfl | rfl <;> rfl
    have hfirst : Reader.step ⟨.number .point { l with fraction := some [] }, stack⟩ c =
        ⟨.number .fraction l₁, stack⟩ := by
      simp only [Reader.step, Reader.inNumber, hl₁]
    rw [Reader.after_cons, hpoint, Reader.after_cons, hfirst, hl']

theorem exists_after_exponent (h : IsExponent cs) {place : NumberPlace}
    (hplace : place = .zero ∨ place = .whole ∨ place = .fraction) (l : Number.Literal) :
    ∃ place' l', place'.mayEnd = true ∧ ∀ stack,
      Reader.after ⟨.number place l, stack⟩ cs = ⟨.number place' l', stack⟩ := by
  cases h with
  | absent => exact ⟨place, l, by rcases hplace with rfl | rfl | rfl <;> rfl, fun _ => rfl⟩
  | @digits e c sign cs he hsign hcs =>
    simp only [List.mem_cons, List.not_mem_nil, or_false] at he hsign
    have hmark : ∀ stack, Reader.step ⟨.number place l, stack⟩ e =
        ⟨.number .exponent { l with exponent := some (false, []) }, stack⟩ := by
      intro stack
      rcases hplace with rfl | rfl | rfl <;> rcases he with rfl | rfl <;> rfl
    have hc : c.isDigit = true := hcs c List.mem_cons_self
    have hplus : c ≠ '+' := ne_of_isDigit hc rfl
    have hminus : c ≠ '-' := ne_of_isDigit hc rfl
    have hsigned : ∃ place₁ l₁ l₂, numberStep place₁ l₁ c = some (.exponentDigits, l₂) ∧
        ∀ stack, Reader.after ⟨.number .exponent { l with exponent := some (false, []) }, stack⟩
          sign = ⟨.number place₁ l₁, stack⟩ := by
      rcases hsign with rfl | rfl | rfl
      · exact ⟨.exponent, _, _, (if_neg hplus).trans ((if_neg hminus).trans (if_pos hc)),
          fun _ => rfl⟩
      · exact ⟨.exponentSign, _, _, if_pos hc, fun _ => rfl⟩
      · exact ⟨.exponentSign, { l with exponent := some (true, []) }, _, if_pos hc, fun _ => rfl⟩
    obtain ⟨place₁, l₁, l₂, hstep, hsigned⟩ := hsigned
    have hfirst : ∀ stack, Reader.step ⟨.number place₁ l₁, stack⟩ c =
        ⟨.number .exponentDigits l₂, stack⟩ := by
      intro stack
      simp only [Reader.step, Reader.inNumber, hstep]
    obtain ⟨l', hl'⟩ :=
      exists_after_more (fun d hd => hcs d (List.mem_cons_of_mem _ hd)) (.inr rfl) l₂
    refine ⟨.exponentDigits, l', rfl, fun stack => ?_⟩
    rw [Reader.after_cons, hmark, Reader.after_append, hsigned, Reader.after_cons, hfirst, hl']

/-- A number may end behind each of its digits. -/
theorem behind_number {place : NumberPlace} (hplace : place.mayEnd = true) (l : Number.Literal)
    (stack : List Frame) :
    Reader.Behind ⟨.number place l, stack⟩ (.num (.ofLiteral (inOrder l))) stack where
  step c hc := by
    have hall : ∀ c, Follows c → c.isDigit = false ∧ c ≠ '.' ∧ c ≠ 'e' ∧ c ≠ 'E' := by
      rintro c (hblank | hend)
      · have := isBlank_iff.mp hblank
        simp only [List.mem_cons, List.not_mem_nil, or_false] at this
        rcases this with rfl | rfl | rfl | rfl <;> decide
      · simp only [List.mem_cons, List.not_mem_nil, or_false] at hend
        rcases hend with rfl | rfl | rfl <;> decide
    obtain ⟨hdigit, hpoint, hlower, hupper⟩ := hall c hc
    have hstep : numberStep place l c = none := by
      cases place <;> simp_all [numberStep, NumberPlace.mayEnd]
    show Reader.inNumber stack place l c = _
    simp [Reader.inNumber, hstep, hplace, hdigit]
  finish h := by
    subst h
    simp [Reader.finish, hplace]

theorem IsNumber.exists_leads (h : IsNumber cs) : ∃ k, ∀ n, Leads n cs (.num k) := by
  obtain ⟨hsign, hwhole, hfraction, hexponent⟩ := h
  obtain ⟨place, hplace, hfirst⟩ := exists_after_whole hsign hwhole
  obtain ⟨place', l', hplace', hsecond⟩ := exists_after_fraction hfraction hplace _
  obtain ⟨place'', l'', hend, hthird⟩ := exists_after_exponent hexponent hplace' l'
  refine ⟨.ofLiteral (inOrder l''), fun n stack mayClose _ => ?_⟩
  rw [← List.append_assoc, Reader.after_append, hfirst, Reader.after_append, hsecond, hthird]
  exact behind_number hend l'' stack

/-! ## Lists and objects -/

def Frame.IsList : Frame → Prop
  | .list _ | .passedList => True
  | _ => False

/-- An object that waits for a name. -/
def Frame.IsRecord : Frame → Prop
  | .record _ none | .passedRecord _ false => True
  | _ => False

/-- The value of the list or object as far as it was read. -/
def Frame.whole : Frame → Json
  | .list done => .arr done.reverse
  | .record done _ => .obj done.reverse
  | .passedList => .broken .null
  | .passedRecord seen _ => .broken seen

/-- The object with one more member, whose name need be no text. -/
def Frame.addMember (f : Frame) (m : Option String × Json) : Frame := (f.withName m.1).add m.2

variable {f : Frame}

theorem Frame.IsList.add (hf : f.IsList) (v : Json) : (f.add v).IsList := by
  cases f <;> first | exact hf.elim | trivial

theorem Frame.IsRecord.addMember (hf : f.IsRecord) (m : Option String × Json) :
    (f.addMember m).IsRecord := by
  obtain ⟨_ | k, v⟩ := m <;> cases f <;> first | exact hf.elim | trivial

theorem Frame.IsList.next_eq (hf : f.IsList) : f.next = .value false := by
  cases f <;> first | exact hf.elim | rfl

theorem Frame.IsRecord.next_eq (hf : f.IsRecord) : f.next = .name false := by
  cases f <;> first | exact hf.elim | rfl

theorem Frame.IsList.ended?_eq (hf : f.IsList) : f.ended? ']' = some f.whole := by
  cases f <;> first | exact hf.elim | rfl

theorem Frame.IsRecord.ended?_eq (hf : f.IsRecord) : f.ended? '\x7d' = some f.whole := by
  match f, hf with
  | .record _ none, _ => rfl
  | .passedRecord _ false, _ => rfl

theorem whole_foldl_add (done items : List Json) :
    (items.foldl (fun f v => f.add v) (Frame.list done)).whole = .arr (done.reverse ++ items) := by
  induction items generalizing done with
  | nil => rw [List.append_nil]; rfl
  | cons v rest ih =>
    rw [List.foldl_cons]
    have hrest := ih (v :: done)
    rwa [List.reverse_cons, List.append_assoc] at hrest

theorem whole_foldl_addMember (done members : List (String × Json)) :
    ((members.map fun m => (some m.1, m.2)).foldl Frame.addMember (.record done none)).whole =
      .obj (done.reverse ++ members) := by
  induction members generalizing done with
  | nil => rw [List.append_nil]; rfl
  | cons m rest ih =>
    rw [List.map_cons, List.foldl_cons]
    have hrest := ih (m :: done)
    rwa [List.reverse_cons, List.append_assoc] at hrest

theorem afterValue_comma (v : Json) (f : Frame) (stack : List Frame) :
    Reader.afterValue v (f :: stack) ',' = ⟨(f.add v).next, f.add v :: stack⟩ := rfl

theorem afterValue_of_ended {c : Char} (hblank : isBlank c = false) (hcomma : c ≠ ',') {w : Json}
    (h : (f.add v).ended? c = some w) : Reader.afterValue v (f :: stack) c = ⟨.after w, stack⟩ := by
  simp [Reader.afterValue, hblank, hcomma, h]

/-- The rest of a list. -/
theorem after_items {items : List (Json × Padded)} (hne : items ≠ []) (hf : f.IsList)
    (hitems : ∀ i ∈ items, Leads (stack.length + 1) i.2.core i.1) (mayClose : Bool) :
    Reader.after ⟨.value mayClose, f :: stack⟩
        (joined (items.map fun i => i.2.text) ++ [']']) =
      ⟨.after ((items.map Prod.fst).foldl (fun f v => f.add v) f).whole, stack⟩ := by
  induction items generalizing f mayClose with
  | nil => exact absurd rfl hne
  | cons i rest ih =>
    have hi := (hitems i List.mem_cons_self).padded (f :: stack) mayClose rfl
    have hadd := hf.add i.1
    cases rest with
    | nil =>
      rw [List.map_singleton, joined_singleton, Reader.after_append, Reader.after_cons,
        hi.step ']' (.inr (by simp)), afterValue_of_ended rfl (by decide) hadd.ended?_eq]
      rfl
    | cons k rest =>
      have hrest := ih (by simp) hadd (fun x hx => hitems x (List.mem_cons_of_mem _ hx)) false
      rw [List.map_cons, List.map_cons, joined_cons_cons, List.append_assoc, Reader.after_append,
        List.cons_append, Reader.after_cons, hi.step ',' (.inr (by simp)), afterValue_comma,
        hadd.next_eq]
      exact hrest

theorem startName_of_blank {c : Char} (h : isBlank c = true) (r : Reader) (mayClose : Bool) :
    r.startName mayClose c = r := by
  unfold Reader.startName
  rw [if_pos h]

/-- A name and the colon behind it. -/
theorem after_name {p : Padded} {t : Option String} (h : Ends p.core t) (f : Frame)
    (stack : List Frame) (mayClose : Bool) :
    Reader.after ⟨.name mayClose, f :: stack⟩ (p.text ++ [':']) =
      ⟨.value false, f.withName t :: stack⟩ := by
  have hbefore : Reader.after ⟨.name mayClose, f :: stack⟩ p.before =
      ⟨.name mayClose, f :: stack⟩ :=
    Reader.after_blank (r := ⟨.name mayClose, f :: stack⟩)
      (fun c hc => startName_of_blank hc _ mayClose) p.blank_before
  have hcore : Reader.after ⟨.name mayClose, f :: stack⟩ p.core =
      ⟨.colon, f.withName t :: stack⟩ := h ⟨.name mayClose, f :: stack⟩ true rfl
  have hafter : Reader.after ⟨.colon, f.withName t :: stack⟩ p.after =
      ⟨.colon, f.withName t :: stack⟩ :=
    Reader.after_blank (r := ⟨.colon, f.withName t :: stack⟩) (fun c hc => if_pos hc)
      p.blank_after
  unfold Padded.text
  rw [Reader.after_append, Reader.after_append, Reader.after_append, hbefore, hcore, hafter]
  rfl

/-- The text of a member takes the machine behind its value. -/
theorem behind_member {m : Member} {t : Option String} (hname : Ends m.name.core t)
    (hvalue : Leads (stack.length + 1) m.value.core v) (f : Frame) (mayClose : Bool) :
    Reader.Behind (Reader.after ⟨.name mayClose, f :: stack⟩ m.text) v
      (f.withName t :: stack) := by
  have htext : m.text = (m.name.text ++ [':']) ++ m.value.text := by simp [Member.text]
  rw [htext, Reader.after_append, after_name hname]
  exact hvalue.padded _ false rfl

/-- The rest of an object. -/
theorem after_members {members : List ((Option String × Json) × Member)} (hne : members ≠ [])
    (hf : f.IsRecord) (hnames : ∀ m ∈ members, Ends m.2.name.core m.1.1)
    (hvalues : ∀ m ∈ members, Leads (stack.length + 1) m.2.value.core m.1.2) (mayClose : Bool) :
    Reader.after ⟨.name mayClose, f :: stack⟩
        (joined (members.map fun m => m.2.text) ++ ['\x7d']) =
      ⟨.after ((members.map Prod.fst).foldl Frame.addMember f).whole, stack⟩ := by
  induction members generalizing f mayClose with
  | nil => exact absurd rfl hne
  | cons m rest ih =>
    have hm := behind_member (hnames m List.mem_cons_self) (hvalues m List.mem_cons_self) f
      mayClose
    have hadd : ((f.withName m.1.1).add m.1.2).IsRecord := hf.addMember m.1
    cases rest with
    | nil =>
      rw [List.map_singleton, joined_singleton, Reader.after_append, Reader.after_cons,
        hm.step '\x7d' (.inr (by simp)), afterValue_of_ended rfl (by decide) hadd.ended?_eq]
      rfl
    | cons k rest =>
      have hrest := ih (by simp) hadd (fun x hx => hnames x (List.mem_cons_of_mem _ hx))
        (fun x hx => hvalues x (List.mem_cons_of_mem _ hx)) false
      rw [List.map_cons, List.map_cons, joined_cons_cons, List.append_assoc, Reader.after_append,
        List.cons_append, Reader.after_cons, hm.step ',' (.inr (by simp)), afterValue_comma,
        hadd.next_eq]
      exact hrest

/-- What is opened where `n` lists and objects are open. -/
def Frame.openedAt (n : Nat) (f : Frame) : Frame := if n < maxOpen then f else f.passed

theorem isList_openedAt (n : Nat) : (Frame.openedAt n (.list [])).IsList := by
  unfold Frame.openedAt
  split <;> trivial

theorem isRecord_openedAt (n : Nat) : (Frame.openedAt n (.record [] none)).IsRecord := by
  unfold Frame.openedAt
  split <;> trivial

theorem step_open_list (mayClose : Bool) (stack : List Frame) :
    Reader.step ⟨.value mayClose, stack⟩ '[' =
      ⟨.value true, Frame.openedAt stack.length (.list []) :: stack⟩ := rfl

theorem step_open_record (mayClose : Bool) (stack : List Frame) :
    Reader.step ⟨.value mayClose, stack⟩ '\x7b' =
      ⟨.name true, Frame.openedAt stack.length (.record [] none) :: stack⟩ := rfl

theorem step_close_list (hf : f.IsList) :
    Reader.step ⟨.value true, f :: stack⟩ ']' = ⟨.after f.whole, stack⟩ := by
  have hstep : Reader.step ⟨.value true, f :: stack⟩ ']' =
      Reader.endEmpty ⟨.value true, f :: stack⟩ true ']' := rfl
  rw [hstep]
  simp [Reader.endEmpty, hf.ended?_eq]

theorem step_close_record (hf : f.IsRecord) :
    Reader.step ⟨.name true, f :: stack⟩ '\x7d' = ⟨.after f.whole, stack⟩ := by
  have hstep : Reader.step ⟨.name true, f :: stack⟩ '\x7d' =
      Reader.endEmpty ⟨.name true, f :: stack⟩ true '\x7d' := rfl
  rw [hstep]
  simp [Reader.endEmpty, hf.ended?_eq]

theorem leads_emptyList (hws : Blank ws) :
    Leads n ('[' :: (ws ++ [']'])) (Frame.openedAt n (.list [])).whole := by
  intro stack mayClose hstack
  subst hstack
  have hblank : ∀ f : Frame, Reader.after ⟨.value true, f :: stack⟩ ws =
      ⟨.value true, f :: stack⟩ := fun f =>
    Reader.after_blank (r := ⟨.value true, f :: stack⟩)
      (fun c hc => startValue_of_blank hc _ true) hws
  rw [Reader.after_cons, step_open_list, Reader.after_append, hblank, Reader.after_cons,
    step_close_list (isList_openedAt _)]
  exact behind_after _ stack

theorem leads_list {items : List (Json × Padded)} (hne : items ≠ [])
    (hitems : ∀ i ∈ items, Leads (n + 1) i.2.core i.1) :
    Leads n ('[' :: (joined (items.map fun i => i.2.text) ++ [']']))
      ((items.map Prod.fst).foldl (fun f v => f.add v) (Frame.openedAt n (.list []))).whole := by
  intro stack mayClose hstack
  subst hstack
  rw [Reader.after_cons, step_open_list, after_items hne (isList_openedAt _) hitems]
  exact behind_after _ stack

theorem leads_emptyObject (hws : Blank ws) :
    Leads n ('\x7b' :: (ws ++ ['\x7d'])) (Frame.openedAt n (.record [] none)).whole := by
  intro stack mayClose hstack
  subst hstack
  have hblank : ∀ f : Frame, Reader.after ⟨.name true, f :: stack⟩ ws =
      ⟨.name true, f :: stack⟩ := fun f =>
    Reader.after_blank (r := ⟨.name true, f :: stack⟩)
      (fun c hc => startName_of_blank hc _ true) hws
  rw [Reader.after_cons, step_open_record, Reader.after_append, hblank, Reader.after_cons,
    step_close_record (isRecord_openedAt _)]
  exact behind_after _ stack

theorem leads_object {members : List ((Option String × Json) × Member)} (hne : members ≠ [])
    (hnames : ∀ m ∈ members, Ends m.2.name.core m.1.1)
    (hvalues : ∀ m ∈ members, Leads (n + 1) m.2.value.core m.1.2) :
    Leads n ('\x7b' :: (joined (members.map fun m => m.2.text) ++ ['\x7d']))
      ((members.map Prod.fst).foldl Frame.addMember
        (Frame.openedAt n (.record [] none))).whole := by
  intro stack mayClose hstack
  subst hstack
  rw [Reader.after_cons, step_open_record,
    after_members hne (isRecord_openedAt _) hnames hvalues]
  exact behind_after _ stack

/-- A list inside not too many others is that of its items. -/
theorem leads_items {items : List (Json × Padded)} (hroom : n < maxOpen) (hne : items ≠ [])
    (hitems : ∀ i ∈ items, Leads (n + 1) i.2.core i.1) :
    Leads n ('[' :: (joined (items.map fun i => i.2.text) ++ [']']))
      (.arr (items.map Prod.fst)) := by
  have hlist := leads_list hne hitems
  rwa [Frame.openedAt, if_pos hroom, whole_foldl_add] at hlist

/-- An object inside not too many others is that of its members, when all its names are
texts. -/
theorem leads_members {members : List ((String × Json) × Member)} (hroom : n < maxOpen)
    (hne : members ≠ []) (hnames : ∀ m ∈ members, Quotes m.1.1 m.2.name.core)
    (hvalues : ∀ m ∈ members, Leads (n + 1) m.2.value.core m.1.2) :
    Leads n ('\x7b' :: (joined (members.map fun m => m.2.text) ++ ['\x7d']))
      (.obj (members.map Prod.fst)) := by
  let read : List ((Option String × Json) × Member) :=
    members.map fun m => ((some m.1.1, m.1.2), m.2)
  have hnames' : ∀ m ∈ read, Ends m.2.name.core m.1.1 := by
    intro m hm
    obtain ⟨k, hk, rfl⟩ := List.mem_map.mp hm
    exact (hnames k hk).ends
  have hvalues' : ∀ m ∈ read, Leads (n + 1) m.2.value.core m.1.2 := by
    intro m hm
    obtain ⟨k, hk, rfl⟩ := List.mem_map.mp hm
    exact hvalues k hk
  have hobject := leads_object (by simpa [read] using hne) hnames' hvalues'
  have hfirsts : read.map Prod.fst = (members.map Prod.fst).map fun m => (some m.1, m.2) := by
    simp [read, Function.comp_def]
  have htexts : read.map (fun m => m.2.text) = members.map fun m => m.2.text := by
    simp [read, Function.comp_def]
  rwa [htexts, hfirsts, Frame.openedAt, if_pos hroom, whole_foldl_addMember] at hobject

/-! ## Values by their form -/

theorem exists_paired {α β : Type} {as : List α} {R : β → α → Prop} (h : ∀ a ∈ as, ∃ b, R b a) :
    ∃ ps : List (β × α), ps.map Prod.snd = as ∧ ∀ p ∈ ps, R p.1 p.2 := by
  induction as with
  | nil => exact ⟨[], rfl, by simp⟩
  | cons a rest ih =>
    obtain ⟨b, hb⟩ := h a List.mem_cons_self
    obtain ⟨ps, hps, hall⟩ := ih fun x hx => h x (List.mem_cons_of_mem a hx)
    refine ⟨(b, a) :: ps, by rw [List.map_cons, hps], ?_⟩
    rintro p (_ | ⟨_, hp⟩)
    · exact hb
    · exact hall p hp

theorem Quotes.leads {s : String} (h : Quotes s cs) : Leads n cs (.str s) := by
  intro stack mayClose _
  rw [h.ends ⟨.value mayClose, stack⟩ false rfl]
  exact behind_after _ stack

theorem Ends.exists_leads {t : Option String} (h : Ends cs t) : ∃ v, Leads n cs v := by
  refine ⟨t.elim (.broken .null) .str, fun stack mayClose _ => ?_⟩
  rw [h ⟨.value mayClose, stack⟩ false rfl]
  exact behind_after _ stack

/-- Whatever is a value by its form is passed over, by induction on the form. -/
theorem IsValue.exists_leads (h : IsValue cs) (n : Nat) : ∃ v, Leads n cs v := by
  induction h generalizing n with
  | @word s hs =>
    simp only [List.mem_cons, List.not_mem_nil, or_false] at hs
    rcases hs with rfl | rfl | rfl
    · exact ⟨.null, fun stack _ _ => behind_after _ stack⟩
    · exact ⟨.bool true, fun stack _ _ => behind_after _ stack⟩
    · exact ⟨.bool false, fun stack _ _ => behind_after _ stack⟩
  | number hnumber =>
    obtain ⟨k, hk⟩ := hnumber.exists_leads
    exact ⟨.num k, hk n⟩
  | string hstring =>
    obtain ⟨t, ht⟩ := hstring.exists_ends
    exact ht.exists_leads
  | emptyList hws => exact ⟨_, leads_emptyList hws⟩
  | @list items hne _ ih =>
    obtain ⟨ps, rfl, hps⟩ := exists_paired fun p hp => ih p hp (n + 1)
    have hlist := leads_list (by simpa using hne) hps
    exact ⟨_, by simpa [Function.comp_def] using hlist⟩
  | emptyObject hws => exact ⟨_, leads_emptyObject hws⟩
  | @object members hne hnames _ ih =>
    have hboth : ∀ m ∈ members, ∃ tv : Option String × Json,
        Ends m.name.core tv.1 ∧ Leads (n + 1) m.value.core tv.2 := by
      intro m hm
      obtain ⟨t, ht⟩ := (hnames m hm).exists_ends
      obtain ⟨v, hv⟩ := ih m hm (n + 1)
      exact ⟨(t, v), ht, hv⟩
    obtain ⟨ps, rfl, hps⟩ := exists_paired hboth
    have hobject := leads_object (by simpa using hne) (fun p hp => (hps p hp).1)
      fun p hp => (hps p hp).2
    exact ⟨_, by simpa [Function.comp_def] using hobject⟩

end ChainAccess.Json
