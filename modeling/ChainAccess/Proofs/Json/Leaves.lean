import ChainAccess.Proofs.Json.Texts
import Mathlib.Tactic.Common
-- What the machine of the reader takes to its end, for the parts of a text that hold no
-- others. A string goes on to its quote, and stands for the text that was read, if one
-- was; a number goes on to where it may end, and a word to its last letter.

namespace ChainAccess.Json

variable {r : Reader} {stack : List Frame} {cs : List Char} {d v : Json}

/-! ## Reading to the end -/

/-- From here on the text is read to its end as the value. -/
def Reads (r : Reader) (cs : List Char) (d : Json) : Prop :=
  (r.after cs).finish = ⟨d, true⟩ ∧ ∀ seen, d ≠ .broken seen

theorem exists_salvage (last : Option Json) (stack : List Frame) :
    ∃ seen, salvage last stack = .broken seen := by
  have hclose : ∀ (f : Frame) (inner : Option Json), ∃ seen, f.close inner = .broken seen := by
    intro f inner
    unfold Frame.close
    split <;> exact ⟨_, rfl⟩
  cases stack with
  | nil => exact ⟨_, rfl⟩
  | cons f outer =>
    unfold salvage
    dsimp only
    generalize hfirst : f.close last = first
    have hseen : ∃ seen, first = .broken seen := hfirst ▸ hclose f last
    clear hfirst
    induction outer generalizing first with
    | nil => exact hseen
    | cons g outer ih => exact ih _ (hclose g (some first))

theorem not_reads_of_salvage (last : Option Json)
    (h : r.finish = ⟨salvage last r.stack, true⟩) : ¬ Reads r [] d := by
  rintro ⟨hfinish, hwhole⟩
  obtain ⟨seen, hseen⟩ := exists_salvage last r.stack
  rw [Reader.after_nil, h, hseen] at hfinish
  exact hwhole seen (congrArg Document.value hfinish).symm

theorem not_reads_failed (last : Option Json) : ¬ Reads ⟨.failed last, stack⟩ cs d := by
  induction cs with
  | nil => exact not_reads_of_salvage last rfl
  | cons c rest ih => exact ih

theorem not_reads_trailing : ¬ Reads ⟨.trailing v, stack⟩ cs d := by
  induction cs with
  | nil =>
    rintro ⟨hfinish, -⟩
    exact absurd (congrArg Document.clean hfinish) (by simp [Reader.after, Reader.finish])
  | cons c rest ih => exact ih

/-- Blanks come first, and then something else. -/
theorem Reads.exists_first (h : Reads r cs d) (hblank : ∀ c, isBlank c = true → r.step c = r)
    (hend : ¬ Reads r [] d) : ∃ ws c rest, cs = ws ++ c :: rest ∧ Blank ws ∧
      isBlank c = false ∧ Reads (r.step c) rest d := by
  induction cs with
  | nil => exact absurd h hend
  | cons c rest ih =>
    cases hc : isBlank c with
    | false => exact ⟨[], c, rest, rfl, blank_nil, hc, h⟩
    | true =>
      have hrest : Reads (r.step c) rest d := h
      rw [hblank c hc] at hrest
      obtain ⟨ws, e, rest', rfl, hws, he, hread⟩ := ih hrest
      exact ⟨c :: ws, e, rest', rfl, (blank_singleton hc).append hws, he, hread⟩

/-! ## Strings -/

section

variable {isName : Bool} {place : StringPlace} {done : List UInt8} {ds : List Char} {n : Nat}

/-- What stands of an escape that is not over. -/
inductive Pending : StringPlace → List Char → Prop
  | text : Pending .text []
  | escape : Pending .escape ['\\']
  | code {ds : List Char} {left n : Nat} : HexDigits ds n → ds.length + left = 4 → 0 < left →
      Pending (.code left n none) ('\\' :: 'u' :: ds)
  | pairEscape {ds : List Char} {high : Nat} : IsCode ds high → IsHigh high →
      Pending (.pairEscape high) ('\\' :: 'u' :: ds)
  | pairCode {ds : List Char} {high : Nat} : IsCode ds high → IsHigh high →
      Pending (.pairCode high) ('\\' :: 'u' :: (ds ++ ['\\']))
  | pair {ds es : List Char} {high left n : Nat} : IsCode ds high → IsHigh high →
      HexDigits es n → es.length + left = 4 → 0 < left →
      Pending (.code left n (some high)) ('\\' :: 'u' :: (ds ++ '\\' :: 'u' :: es))

/-- The part of a string that was read: it can be passed over, and stands for the bytes if
these can be those of a text. -/
structure Gathered (cs : List Char) (done : List UInt8) : Prop where
  isBody : IsBody cs
  spells : noText ∉ done → Spells cs done.reverse

/-- Where a string stands behind its first characters. -/
def Stands (place : StringPlace) (done : List UInt8) (cs : List Char) : Prop :=
  ∃ whole pending, cs = whole ++ pending ∧ Gathered whole done ∧ Pending place pending

theorem IsBody.append {as : List Char} (h : IsBody as) (h' : IsBody cs) : IsBody (as ++ cs) := by
  induction h with
  | nil => exact h'
  | plain hc _ ih => exact .plain hc ih
  | escape hescape _ ih => exact .escape hescape ih
  | code hcode _ ih =>
    rw [List.cons_append, List.cons_append, List.append_assoc]
    exact .code hcode ih

theorem isBody_code (h : IsCode ds n) : IsBody ('\\' :: 'u' :: ds) := by
  have hbody := IsBody.code h .nil
  rwa [List.append_nil] at hbody

theorem gathered_nil : Gathered [] [] := ⟨.nil, fun _ => .nil⟩

theorem Gathered.stands (h : Gathered cs done) : Stands .text done cs :=
  ⟨cs, [], (List.append_nil cs).symm, h, .text⟩

/-- More of a string that stands for more bytes. -/
theorem Gathered.spell {more : List Char} {bs : List UInt8} (h : Gathered cs done)
    (hbody : IsBody more) (hspells : Spells more bs) :
    Gathered (cs ++ more) (bs.reverse ++ done) where
  isBody := h.isBody.append hbody
  spells hnot := by
    rw [List.reverse_append, List.reverse_reverse]
    exact (h.spells fun hmem => hnot (List.mem_append_right _ hmem)).append hspells

/-- More of a string that stands for no text any more. -/
theorem Gathered.spoil {more : List Char} (h : Gathered cs done) (hbody : IsBody more) :
    Gathered (cs ++ more) (noText :: done) where
  isBody := h.isBody.append hbody
  spells hnot := absurd List.mem_cons_self hnot

/-- What one character does to a string. -/
inductive Turn (stack : List Frame) (isName : Bool) (cs : List Char) (c : Char) : Reader → Prop
  | ended {t : Option String} : c = '"' → IsBody cs →
      (∀ s, t = some s → Spells cs (Utf8.encode s)) →
      Turn stack isName cs c (Reader.endString isName t stack)
  | failed : Turn stack isName cs c ⟨.failed none, stack⟩
  | goes {place : StringPlace} {done : List UInt8} : Stands place done (cs ++ [c]) →
      Turn stack isName cs c ⟨.string isName place done, stack⟩

theorem Gathered.turn_text (h : Gathered cs done) (c : Char) :
    Turn stack isName cs c (Reader.inText stack isName done c) := by
  unfold Reader.inText
  split
  · next hquote =>
    refine .ended hquote h.isBody fun s hs => ?_
    have hbytes := Utf8.encode_of_text? hs
    rw [hbytes]
    refine h.spells fun hmem => Utf8.ne_of_mem_encode s _ ?_ rfl
    rw [hbytes]
    exact List.mem_reverse.mpr hmem
  · next hquote =>
    split
    · next hback =>
      subst hback
      exact .goes ⟨cs, ['\\'], rfl, h, .escape⟩
    · next hback =>
      split
      · exact .failed
      · next hcontrol =>
        have hplain : IsPlain c := ⟨Nat.le_of_not_lt hcontrol, hquote, hback⟩
        exact .goes (h.spell (.plain hplain .nil) (.plain hplain .nil)).stands

theorem Gathered.turn_escape (h : Gathered cs done) (c : Char) :
    Turn stack isName (cs ++ ['\\']) c (Reader.inEscape stack isName done c) := by
  have hcut : ∀ ds : List Char, (cs ++ ['\\']) ++ ds = cs ++ '\\' :: ds := by simp
  unfold Reader.inEscape
  split
  · next hu =>
    subst hu
    refine .goes ⟨cs, ['\\', 'u'], hcut _, h, ?_⟩
    exact .code .nil rfl (by decide)
  · cases hescape : unescape? c with
    | none => exact .failed
    | some e =>
      have hmem := unescape?_eq_some_iff.mp hescape
      have hspells := Spells.escape hmem .nil
      rw [List.append_nil] at hspells
      refine .goes ?_
      rw [hcut]
      exact (h.spell (.escape hmem .nil) hspells).stands

/-- A code that does not stand behind the first half of a pair. -/
theorem Gathered.exists_endCode (h : Gathered cs done) (hcode : IsCode ds n) :
    ∃ place done', (∀ isName, endCode isName done n = .string isName place done') ∧
      Stands place done' (cs ++ '\\' :: 'u' :: ds) := by
  have hbody := isBody_code hcode
  by_cases hhigh : IsHigh n
  · exact ⟨.pairEscape n, done, fun _ => if_pos hhigh, cs, _, rfl, h, .pairEscape hcode hhigh⟩
  · by_cases hlow : IsLow n
    · exact ⟨.text, noText :: done, fun _ => (if_neg hhigh).trans (if_pos hlow),
        (h.spoil hbody).stands⟩
    · have hspells := Spells.code hcode hhigh hlow .nil
      rw [List.append_nil, List.append_nil] at hspells
      exact ⟨.text, addChar done (Char.ofNat n), fun _ => (if_neg hhigh).trans (if_neg hlow),
        (h.spell hbody hspells).stands⟩

/-- A code behind the first half of a pair. -/
theorem Gathered.exists_endPair {es : List Char} {high : Nat} (h : Gathered cs done)
    (hfirst : IsCode ds high) (hhigh : IsHigh high) (hcode : IsCode es n) :
    ∃ place done', (∀ isName, endPair isName done high n = .string isName place done') ∧
      Stands place done' (cs ++ '\\' :: 'u' :: (ds ++ '\\' :: 'u' :: es)) := by
  have hcut : '\\' :: 'u' :: (ds ++ '\\' :: 'u' :: es) =
      ('\\' :: 'u' :: ds) ++ ('\\' :: 'u' :: es) := rfl
  by_cases hlow : IsLow n
  · have hspells := Spells.pair hfirst hhigh hcode hlow .nil
    rw [List.append_nil, List.append_nil] at hspells
    refine ⟨.text, _, fun _ => if_pos hlow, (h.spell ?_ hspells).stands⟩
    rw [hcut]
    exact (isBody_code hfirst).append (isBody_code hcode)
  · obtain ⟨place, done', hend, hstands⟩ :=
      (h.spoil (isBody_code hfirst)).exists_endCode hcode
    refine ⟨place, done', fun isName => (if_neg hlow).trans (hend isName), ?_⟩
    rwa [hcut, ← List.append_assoc]

/-- A digit of a code. -/
theorem HexDigits.next {left k : Nat} {c : Char} (h : HexDigits ds n)
    (hleft : ds.length + left = 4) (hdigit : codeDigit? c = some k) :
    HexDigits (ds ++ [c]) (16 * n + k) ∧
      (left ≤ 1 → 0 < left → IsCode (ds ++ [c]) (16 * n + k)) ∧
      (¬ left ≤ 1 → (ds ++ [c]).length + (left - 1) = 4 ∧ 0 < left - 1) := by
  have hdigits := h.concat (codeDigit?_eq_some_iff.mp hdigit)
  refine ⟨hdigits, fun hlast hpos => ⟨hdigits, ?_⟩, fun hmore => ⟨?_, by omega⟩⟩ <;>
    · rw [List.length_append, List.length_singleton]
      omega

/-- One more digit of a code, whatever the code stands behind. -/
theorem turn_digit {front : List Char} {pair : Option Nat} {left : Nat}
    (hopen : ∀ {es n left}, HexDigits es n → es.length + left = 4 → 0 < left →
      Stands (.code left n pair) done (front ++ es))
    (hend : ∀ {es n}, IsCode es n → ∃ place done',
      (∀ isName, pair.elim (endCode isName done) (endPair isName done) n =
        .string isName place done') ∧ Stands place done' (front ++ es))
    (hdigits : HexDigits ds n) (hleft : ds.length + left = 4) (hpos : 0 < left) (c : Char) :
    Turn stack isName (front ++ ds) c
      (Reader.inString stack isName (.code left n pair) done c) := by
  have hcut : front ++ ds ++ [c] = front ++ (ds ++ [c]) := List.append_assoc ..
  unfold Reader.inString
  cases hdigit : codeDigit? c with
  | none => exact .failed
  | some k =>
    obtain ⟨hnext, hlast, hmore⟩ := hdigits.next hleft hdigit
    dsimp only
    split
    · next hle =>
      obtain ⟨place, done', hend, hstands⟩ := hend (hlast hle hpos)
      rw [hend]
      exact .goes (hcut ▸ hstands)
    · next hgt =>
      obtain ⟨hlength, hpos⟩ := hmore hgt
      exact .goes (hcut ▸ hopen hnext hlength hpos)

theorem Gathered.turn_code {left : Nat} (h : Gathered cs done) (hdigits : HexDigits ds n)
    (hleft : ds.length + left = 4) (hpos : 0 < left) (c : Char) :
    Turn stack isName (cs ++ '\\' :: 'u' :: ds) c
      (Reader.inString stack isName (.code left n none) done c) := by
  have hcut : ∀ es, cs ++ '\\' :: 'u' :: es = cs ++ ['\\', 'u'] ++ es := by simp
  rw [hcut]
  refine turn_digit (fun hdigits hleft hpos => ?_) (fun hcode => ?_) hdigits hleft hpos c <;>
    rw [← hcut]
  · exact ⟨cs, _, rfl, h, .code hdigits hleft hpos⟩
  · exact h.exists_endCode hcode

section

variable {high : Nat}

theorem Gathered.turn_pairEscape (h : Gathered cs done) (hcode : IsCode ds high)
    (hhigh : IsHigh high) (c : Char) :
    Turn stack isName (cs ++ '\\' :: 'u' :: ds) c
      (Reader.inString stack isName (.pairEscape high) done c) := by
  unfold Reader.inString
  dsimp only
  split
  · next hback =>
    subst hback
    exact .goes ⟨cs, _, by simp, h, .pairCode hcode hhigh⟩
  · exact (h.spoil (isBody_code hcode)).turn_text c

theorem Gathered.turn_pairCode (h : Gathered cs done) (hcode : IsCode ds high)
    (hhigh : IsHigh high) (c : Char) :
    Turn stack isName (cs ++ '\\' :: 'u' :: (ds ++ ['\\'])) c
      (Reader.inString stack isName (.pairCode high) done c) := by
  have hcut : cs ++ '\\' :: 'u' :: (ds ++ ['\\']) = (cs ++ '\\' :: 'u' :: ds) ++ ['\\'] := by simp
  unfold Reader.inString
  dsimp only
  split
  · next hu =>
    subst hu
    refine .goes ⟨cs, '\\' :: 'u' :: (ds ++ '\\' :: 'u' :: []), by simp, h, ?_⟩
    exact .pair hcode hhigh .nil rfl (by decide)
  · rw [hcut]
    exact (h.spoil (isBody_code hcode)).turn_escape c

theorem Gathered.turn_pair {es : List Char} {left : Nat} (h : Gathered cs done)
    (hcode : IsCode ds high) (hhigh : IsHigh high) (hdigits : HexDigits es n)
    (hleft : es.length + left = 4) (hpos : 0 < left) (c : Char) :
    Turn stack isName (cs ++ '\\' :: 'u' :: (ds ++ '\\' :: 'u' :: es)) c
      (Reader.inString stack isName (.code left n (some high)) done c) := by
  have hcut : ∀ es, cs ++ '\\' :: 'u' :: (ds ++ '\\' :: 'u' :: es) =
      cs ++ '\\' :: 'u' :: (ds ++ ['\\', 'u']) ++ es := by simp
  rw [hcut]
  refine turn_digit (fun hdigits hleft hpos => ?_) (fun hlow => ?_) hdigits hleft hpos c <;>
    rw [← hcut]
  · exact ⟨cs, _, rfl, h, .pair hcode hhigh hdigits hleft hpos⟩
  · exact h.exists_endPair hcode hhigh hlow

end

/-- One character inside a string. -/
theorem Stands.turn (h : Stands place done cs) (c : Char) :
    Turn stack isName cs c (Reader.inString stack isName place done c) := by
  obtain ⟨whole, pending, rfl, hwhole, hpending⟩ := h
  cases hpending with
  | text =>
    rw [List.append_nil]
    exact hwhole.turn_text c
  | escape => exact hwhole.turn_escape c
  | code hdigits hleft hpos => exact hwhole.turn_code hdigits hleft hpos c
  | pairEscape hcode hhigh => exact hwhole.turn_pairEscape hcode hhigh c
  | pairCode hcode hhigh => exact hwhole.turn_pairCode hcode hhigh c
  | pair hcode hhigh hdigits hleft hpos => exact hwhole.turn_pair hcode hhigh hdigits hleft hpos c

/-- A string goes on to its quote, by induction on the text. -/
theorem Reads.exists_string {begun : List Char}
    (h : Reads ⟨.string isName place done, stack⟩ cs d) (hstands : Stands place done begun) :
    ∃ body rest t, begun ++ cs = body ++ '"' :: rest ∧ IsBody body ∧
      (∀ s, t = some s → Spells body (Utf8.encode s)) ∧
      Reads (Reader.endString isName t stack) rest d := by
  induction cs generalizing place done begun with
  | nil => exact absurd h (not_reads_of_salvage none (by cases stack <;> rfl))
  | cons c rest ih =>
    have hturn : Turn stack isName begun c _ := hstands.turn c
    have hread : Reads (Reader.inString stack isName place done c) rest d := h
    generalize Reader.inString stack isName place done c = r at hturn hread
    cases hturn with
    | @ended t hc hbody hspells => exact ⟨begun, rest, t, by rw [hc], hbody, hspells, hread⟩
    | failed => exact absurd hread (not_reads_failed none)
    | goes hnext =>
      obtain ⟨body, rest', t, heq, hrest⟩ := ih hread hnext
      refine ⟨body, rest', t, ?_, hrest⟩
      rw [← heq, List.append_assoc, List.singleton_append]

end

/-! ## Numbers and words -/

section

variable {place : NumberPlace} {l : Number.Literal}

/-- What may still come of a number. -/
def More : NumberPlace → List Char → Prop
  | .minus, cs => ∃ w f e, cs = w ++ (f ++ e) ∧ IsWhole w ∧ IsFraction f ∧ IsExponent e
  | .zero, cs => ∃ f e, cs = f ++ e ∧ IsFraction f ∧ IsExponent e
  | .whole, cs => ∃ ds f e, cs = ds ++ (f ++ e) ∧ IsDigits ds ∧ IsFraction f ∧ IsExponent e
  | .point, cs => ∃ ds e, cs = ds ++ e ∧ IsDigits ds ∧ ds ≠ [] ∧ IsExponent e
  | .fraction, cs => ∃ ds e, cs = ds ++ e ∧ IsDigits ds ∧ IsExponent e
  | .exponent, cs => ∃ sign ds, cs = sign ++ ds ∧ sign ∈ [[], ['+'], ['-']] ∧ IsDigits ds ∧ ds ≠ []
  | .exponentSign, cs => IsDigits cs ∧ cs ≠ []
  | .exponentDigits, cs => IsDigits cs

theorem isDigits_nil : IsDigits [] := fun _ hc => nomatch hc

theorem IsDigits.cons {c : Char} (hc : c.isDigit = true) (h : IsDigits cs) : IsDigits (c :: cs) :=
  List.forall_mem_cons.mpr ⟨hc, h⟩

theorem more_nil (h : place.mayEnd = true) : More place [] := by
  cases place with
  | zero => exact ⟨[], [], rfl, .absent, .absent⟩
  | whole => exact ⟨[], [], [], rfl, isDigits_nil, .absent, .absent⟩
  | fraction => exact ⟨[], [], rfl, isDigits_nil, .absent⟩
  | exponentDigits => exact isDigits_nil
  | _ => cases h

theorem exists_fraction (h : More .point cs) :
    ∃ f e, '.' :: cs = f ++ e ∧ IsFraction f ∧ IsExponent e := by
  obtain ⟨ds, e, rfl, hds, hne, he⟩ := h
  cases ds with
  | nil => exact absurd rfl hne
  | cons c ds => exact ⟨'.' :: c :: ds, e, rfl, .digits hds, he⟩

theorem isExponent_cons {c : Char} (hc : (c = 'e' || c = 'E') = true) (h : More .exponent cs) :
    IsExponent (c :: cs) := by
  obtain ⟨sign, ds, rfl, hsign, hds, hne⟩ := h
  have hmem : c ∈ ['e', 'E'] := by simpa using hc
  cases ds with
  | nil => exact absurd rfl hne
  | cons k ds => exact .digits hmem hsign hds

/-- A character of a number, and what comes behind it. -/
theorem more_cons {c : Char} {place' : NumberPlace} {l' : Number.Literal}
    (h : numberStep place l c = some (place', l')) (hmore : More place' cs) :
    More place (c :: cs) := by
  cases place <;> simp only [numberStep] at h
  case minus =>
    split_ifs at h with hzero hdigit <;> cases h
    · obtain ⟨f, e, rfl, hf, he⟩ := hmore
      exact ⟨['0'], f, e, by rw [hzero]; rfl, .zero, hf, he⟩
    · obtain ⟨ds, f, e, rfl, hds, hf, he⟩ := hmore
      exact ⟨c :: ds, f, e, rfl, .digits hdigit hzero hds, hf, he⟩
  case zero =>
    split_ifs at h with hpoint hexponent hdigit <;> cases h
    · rw [hpoint]
      exact exists_fraction hmore
    · exact ⟨[], c :: cs, rfl, .absent, isExponent_cons hexponent hmore⟩
    · -- no digit follows a zero
      simp at hdigit
  case whole =>
    split_ifs at h with hpoint hexponent hdigit <;> cases h
    · rw [hpoint]
      obtain ⟨f, e, heq, hf, he⟩ := exists_fraction hmore
      exact ⟨[], f, e, heq, isDigits_nil, hf, he⟩
    · exact ⟨[], [], c :: cs, rfl, isDigits_nil, .absent, isExponent_cons hexponent hmore⟩
    · obtain ⟨ds, f, e, rfl, hds, hf, he⟩ := hmore
      exact ⟨c :: ds, f, e, rfl, hds.cons hdigit, hf, he⟩
  case point =>
    split_ifs at h with hdigit
    cases h
    obtain ⟨ds, e, rfl, hds, he⟩ := hmore
    exact ⟨c :: ds, e, rfl, hds.cons hdigit, by simp, he⟩
  case fraction =>
    split_ifs at h with hdigit hexponent <;> cases h
    · obtain ⟨ds, e, rfl, hds, he⟩ := hmore
      exact ⟨c :: ds, e, rfl, hds.cons hdigit, he⟩
    · exact ⟨[], c :: cs, rfl, isDigits_nil, isExponent_cons hexponent hmore⟩
  case exponent =>
    split_ifs at h with hplus hminus hdigit <;> cases h
    · exact ⟨['+'], cs, by rw [hplus]; rfl, by simp, hmore⟩
    · exact ⟨['-'], cs, by rw [hminus]; rfl, by simp, hmore⟩
    · exact ⟨[], c :: cs, rfl, by simp, IsDigits.cons hdigit hmore, by simp⟩
  case exponentSign =>
    split_ifs at h with hdigit
    cases h
    exact ⟨IsDigits.cons hdigit hmore, by simp⟩
  case exponentDigits =>
    split_ifs at h with hdigit
    cases h
    exact IsDigits.cons hdigit hmore

/-- A number goes on to where it may end, by induction on the text. -/
theorem Reads.exists_number (h : Reads ⟨.number place l, stack⟩ cs d) :
    ∃ tail rest k, cs = tail ++ rest ∧ More place tail ∧
      Reads ⟨.after (.num k), stack⟩ rest d := by
  induction cs generalizing place l with
  | nil =>
    cases hend : place.mayEnd with
    | false =>
      refine absurd h (not_reads_of_salvage none ?_)
      cases stack <;> simp [Reader.finish, hend, salvage]
    | true =>
      cases stack with
      | nil =>
        refine ⟨[], [], .ofLiteral (inOrder l), rfl, more_nil hend, ?_, h.2⟩
        rw [← h.1]
        simp [Reader.after, Reader.finish, hend]
      | cons f rest =>
        refine absurd h (not_reads_of_salvage (some (.num (.ofLiteral (inOrder l)))) ?_)
        simp [Reader.finish, hend]
  | cons c rest ih =>
    have hread : Reads (Reader.inNumber stack place l c) rest d := h
    unfold Reader.inNumber at hread
    cases hstep : numberStep place l c with
    | some next =>
      rw [hstep] at hread
      obtain ⟨tail, rest', k, rfl, hmore, hrest⟩ := ih hread
      exact ⟨c :: tail, rest', k, rfl, more_cons hstep hmore, hrest⟩
    | none =>
      rw [hstep] at hread
      dsimp only at hread
      split at hread
      · next hend => exact ⟨[], c :: rest, _, rfl, more_nil (by simp_all), hread⟩
      · exact absurd hread (not_reads_failed none)

theorem isNumber_of_minus (h : More .minus cs) : IsNumber ('-' :: cs) := by
  obtain ⟨w, f, e, rfl, hw, hf, he⟩ := h
  have hsign : ['-'] ∈ [([] : List Char), ['-']] := by simp
  exact .parts hsign hw hf he

theorem isNumber_of_zero (h : More .zero cs) : IsNumber ('0' :: cs) := by
  obtain ⟨f, e, rfl, hf, he⟩ := h
  have hsign : ([] : List Char) ∈ [[], ['-']] := List.mem_cons_self
  exact .parts hsign .zero hf he

theorem isNumber_of_digit {c : Char} (hc : c.isDigit = true) (hne : c ≠ '0')
    (h : More .whole cs) : IsNumber (c :: cs) := by
  obtain ⟨ds, f, e, rfl, hds, hf, he⟩ := h
  have hsign : ([] : List Char) ∈ [[], ['-']] := List.mem_cons_self
  exact .parts hsign (.digits hc hne hds) hf he

end

theorem Reads.exists_word {word : List Char} (hne : word ≠ [])
    (h : Reads ⟨.word word v, stack⟩ cs d) :
    ∃ rest, cs = word ++ rest ∧ Reads ⟨.after v, stack⟩ rest d := by
  induction word generalizing cs with
  | nil => exact absurd rfl hne
  | cons k word ih =>
    cases cs with
    | nil => exact absurd h (not_reads_of_salvage none (by cases stack <;> rfl))
    | cons c rest =>
      have hread : Reads (Reader.step ⟨.word (k :: word) v, stack⟩ c) rest d := h
      by_cases hc : c = k
      · cases word with
        | nil =>
          refine ⟨rest, by rw [hc]; rfl, ?_⟩
          simpa [Reader.step, hc] using hread
        | cons k' word =>
          have hnext : Reads ⟨.word (k' :: word) v, stack⟩ rest d := by
            simpa [Reader.step, hc] using hread
          obtain ⟨rest', rfl, hrest⟩ := ih (by simp) hnext
          exact ⟨rest', by rw [hc]; rfl, hrest⟩
      · have hfailed : Reads ⟨.failed none, stack⟩ rest d := by
          simpa [Reader.step, hc] using hread
        exact absurd hfailed (not_reads_failed none)

end ChainAccess.Json
