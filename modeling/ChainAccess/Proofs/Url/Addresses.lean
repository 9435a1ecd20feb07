import ChainAccess.Proofs.Text.Digits
import ChainAccess.Proofs.Url.Names
import Mathlib.Data.List.Induction
import Mathlib.Tactic.NormNum.Basic
-- Hosts that are addresses. The text of four numbers, and that of eight groups with their
-- longest run of zeros left out, are read as the address that they were written for.

namespace ChainAccess.Url.Host

variable {c : Char} {cs host : List Char} {n : Nat}

/-! ## Four numbers -/

theorem isLabelChar_of_isDigit (h : c.isDigit = true) :
    IsLabelChar c ∧ isRefusedInName c = false := by
  have hall : ∀ d < 10, d.digitChar.toNat < 128 ∧ d.digitChar.toLower = d.digitChar ∧
      d.digitChar ≠ '.' ∧ isRefusedInName d.digitChar = false := by decide
  obtain ⟨d, hd, rfl⟩ := Text.exists_digitChar h
  obtain ⟨hlt, hlower, hpoint, haccepted⟩ := hall d hd
  exact ⟨⟨hlt, hlower, hpoint⟩, haccepted⟩

/-- The digits of the four numbers. -/
def fourParts (n : Nat) : List (List Char) :=
  [24, 16, 8, 0].map fun s => Nat.toDigits 10 (n / Nat.pow 2 s % 256)

theorem dotted_eq (n : Nat) : dotted n = ['.'].intercalate (fourParts n) := by
  rw [fourParts, ← toList_pointed, List.map_map]
  rfl

theorem isDigit_of_mem_fourParts {l : List Char} (hl : l ∈ fourParts n) (hc : c ∈ l) :
    c.isDigit = true := by
  obtain ⟨s, -, rfl⟩ := List.mem_map.mp hl
  exact Nat.isDigit_of_mem_toDigits (by decide) (by decide) hc

theorem isName_dotted (n : Nat) : IsName (dotted n) (fourParts n) where
  eq := dotted_eq n
  labels_ne_nil := by simp [fourParts]
  label l hl c hc := (isLabelChar_of_isDigit (isDigit_of_mem_fourParts hl hc)).1
  ne_nil heq := by
    rw [dotted_eq] at heq
    simp [fourParts, List.intercalate_cons_cons] at heq
  accepted c hc := by
    rcases Text.mem_intercalate (dotted_eq n ▸ hc) with rfl | ⟨l, hl, hmem⟩
    · decide
    · exact (isLabelChar_of_isDigit (isDigit_of_mem_fourParts hl hmem)).2

theorem labels_dotted (n : Nat) : labels (dotted n) = fourParts n := by
  have hparts : (dotted n).splitOnP (· = '.') = fourParts n := by
    rw [dotted_eq]
    refine Text.splitOnP_intercalate (by simp [fourParts]) fun l hl hmem => ?_
    exact absurd (isDigit_of_mem_fourParts hl hmem) (by decide)
  have hlast : Nat.toDigits 10 (n / Nat.pow 2 0 % 256) ≠ [] := Nat.toDigits_ne_nil
  unfold labels
  rw [hparts]
  dsimp only [fourParts, List.map_cons, List.map_nil, List.reverse_cons, List.reverse_nil,
    List.nil_append, List.cons_append]
  split
  · next heq => exact absurd (List.cons_eq_cons.mp heq).1 hlast
  · rfl

theorem endsInNumber_dotted (n : Nat) : endsInNumber (dotted n) = true := by
  have hdigits : (Nat.toDigits 10 (n / Nat.pow 2 0 % 256)).all Char.isDigit = true :=
    List.all_eq_true.mpr fun c hc => Nat.isDigit_of_mem_toDigits (by decide) (by decide) hc
  have hne : (Nat.toDigits 10 (n / Nat.pow 2 0 % 256)).isEmpty = false := by
    simp
  have hlast : (fourParts n).getLast? = some (Nat.toDigits 10 (n / Nat.pow 2 0 % 256)) := rfl
  unfold endsInNumber
  rw [labels_dotted, hlast]
  dsimp only
  rw [hdigits, hne]
  rfl

theorem number?_toDigits : ∀ b < 256, number? (Nat.toDigits 10 b) = some b := by decide +kernel

/-- Four numbers are read as the address that they were written for. -/
theorem fourNumbers?_dotted (h : n < 2 ^ 32) : fourNumbers? (dotted n) = some n := by
  have hread : ∀ m, number? (Nat.toDigits 10 (m % 256)) = some (m % 256) :=
    fun m => number?_toDigits _ (Nat.mod_lt _ (by decide))
  have hnumbers : (fourParts n).mapM number? =
      some ([24, 16, 8, 0].map fun s => n / Nat.pow 2 s % 256) := by
    simp [fourParts, hread]
  unfold fourNumbers?
  rw [labels_dotted, hnumbers]
  norm_num
  omega

/-- The value of numbers that fill a byte each. -/
theorem foldl_lt (parts : List Nat) (h : ∀ p ∈ parts, p ≤ 255) :
    parts.foldl (fun n part => 256 * n + part) 0 < 256 ^ parts.length := by
  induction parts using List.reverseRecOn with
  | nil => decide
  | append_singleton parts p ih =>
    have hp := h p (by simp)
    have hvalue := ih fun q hq => h q (by simp [hq])
    rw [List.foldl_append, List.length_append, List.length_singleton, Nat.pow_succ]
    dsimp only [List.foldl_cons, List.foldl_nil]
    omega

theorem fourNumbers?_lt (h : fourNumbers? cs = some n) : n < 2 ^ 32 := by
  unfold fourNumbers? at h
  split at h
  · cases h
  · next ns _ =>
    split at h
    · cases h
    · next last init _ =>
      simp only [Bool.or_eq_true, decide_eq_true_eq, List.any_eq_true] at h
      split at h
      · cases h
      · next hfits =>
        push Not at hfits
        obtain ⟨⟨hlength, hsmall⟩, hlast⟩ := hfits
        have hvalue := foldl_lt init.reverse fun p hp => hsmall p (List.mem_reverse.mp hp)
        rw [List.length_reverse] at hvalue
        have hsplit : 256 ^ init.length * 256 ^ (4 - init.length) = 2 ^ 32 := by
          rw [← Nat.pow_add, Nat.add_sub_cancel' (by omega)]
          rfl
        have hlast : last < 256 ^ (4 - init.length) := hlast
        obtain rfl := Option.some.inj h
        calc _ < (init.reverse.foldl (fun n part => 256 * n + part) 0 + 1) *
              256 ^ (4 - init.length) := by rw [Nat.add_one_mul]; exact Nat.add_lt_add_left hlast _
          _ ≤ 256 ^ init.length * 256 ^ (4 - init.length) := Nat.mul_le_mul_right _ hvalue
          _ = 2 ^ 32 := hsplit

/-! ## Groups -/

theorem group?_toDigits {g : Nat} (h : g < 65536) : group? (Nat.toDigits 16 g) = some g := by
  have hlength : ¬ 4 < (Nat.toDigits 16 g).length := by
    rw [Nat.not_lt, Nat.length_toDigits_le_iff (by decide) (by decide)]
    exact h
  unfold group?
  rw [Hex.value_toDigits]
  simp [hlength]

theorem group?_lt {g : Nat} (h : group? cs = some g) : g < 65536 := by
  unfold group? at h
  split at h
  · cases h
  · next hlength =>
    simp only [Bool.or_eq_true, decide_eq_true_eq, not_or, Nat.not_lt] at hlength
    calc g < 16 ^ cs.length := Hex.value_lt cs g h
      _ ≤ 16 ^ 4 := Nat.pow_le_pow_right (by decide) hlength.2

theorem octet?_lt {b : Nat} (h : octet? cs = some b) : b < 256 := by
  unfold octet? at h
  split at h
  · obtain rfl := Option.some.inj h
    decide
  · cases h
  · cases h
  · split at h
    · dsimp only at h
      split at h
      · next hb =>
        obtain rfl := Option.some.inj h
        exact hb
      · cases h
    · cases h

theorem lt_of_mapM_octet? {parts : List (List Char)} {bs : List Nat}
    (h : parts.mapM octet? = some bs) : ∀ b ∈ bs, b < 256 := by
  induction parts generalizing bs with
  | nil =>
    obtain rfl := Option.some.inj h
    simp
  | cons part rest ih =>
    rw [List.mapM_cons] at h
    obtain ⟨b, hb, h⟩ := Option.bind_eq_some_iff.mp h
    obtain ⟨bs, hbs, h⟩ := Option.bind_eq_some_iff.mp h
    obtain rfl := Option.some.inj h
    exact List.forall_mem_cons.mpr ⟨octet?_lt hb, ih hbs⟩

/-! ## Rows of groups -/

/-- Numbers that a group of digits can write. -/
def AreGroups (gs : List Nat) : Prop := ∀ g ∈ gs, g < 65536

theorem areGroups_groups? {parts : List (List Char)} {gs : List Nat}
    (h : groups? parts = some gs) : AreGroups gs := by
  fun_induction groups? parts generalizing gs with
  | case1 =>
    obtain rfl := Option.some.inj h
    simp [AreGroups]
  | case2 l hpoint a b c d hoctets =>
    have hall := lt_of_mapM_octet? hoctets
    simp only [List.forall_mem_cons] at hall
    obtain rfl := Option.some.inj h
    simp only [AreGroups, List.forall_mem_cons]
    exact ⟨by omega, by omega, by simp⟩
  | case3 => cases h
  | case4 l hpoint =>
    obtain ⟨g, hg, rfl⟩ := Option.map_eq_some_iff.mp h
    simpa [AreGroups] using group?_lt hg
  | case5 l rest hne ih =>
    obtain ⟨g, hg, hrest⟩ := Option.bind_eq_some_iff.mp h
    obtain ⟨gs, hgs, rfl⟩ := Option.map_eq_some_iff.mp hrest
    exact List.forall_mem_cons.mpr ⟨group?_lt hg, ih hgs⟩

theorem areGroups_side? {gs : List Nat} (h : side? cs = some gs) : AreGroups gs := by
  unfold side? at h
  split at h
  · obtain rfl := Option.some.inj h
    simp [AreGroups]
  · exact areGroups_groups? h

/-- An address has eight groups. -/
theorem eightGroups?_spec {gs : List Nat} (h : eightGroups? cs = some gs) :
    AreGroups gs ∧ gs.length = 8 := by
  unfold eightGroups? at h
  split at h
  · obtain ⟨side, hside, h⟩ := Option.bind_eq_some_iff.mp h
    split at h
    · next hlength =>
      obtain rfl := Option.some.inj h
      exact ⟨areGroups_side? hside, hlength⟩
    · cases h
  · split at h
    · cases h
    · obtain ⟨a, ha, h⟩ := Option.bind_eq_some_iff.mp h
      obtain ⟨b, hb, h⟩ := Option.bind_eq_some_iff.mp h
      split at h
      · obtain rfl := Option.some.inj h
        refine ⟨List.forall_mem_append.mpr ⟨List.forall_mem_append.mpr
          ⟨areGroups_side? ha, ?_⟩, areGroups_side? hb⟩, ?_⟩
        · intro g hg
          obtain rfl := List.eq_of_mem_replicate hg
          decide
        · simp only [List.length_append, List.length_replicate]
          omega
      · cases h

/-! ## The text of groups -/

/-- A character between brackets. -/
def IsGroupChar (c : Char) : Prop := c = ':' ∨ ∃ d < 16, c = d.digitChar

theorem digitChar_ne_marks : ∀ d < 16, d.digitChar ≠ ':' ∧ d.digitChar ≠ '.' := by decide

theorem ne_colon_of_mem_toDigits (h : c ∈ Nat.toDigits 16 n) : c ≠ ':' := by
  obtain ⟨d, hd, rfl⟩ := Hex.exists_of_mem_toDigits h
  exact (digitChar_ne_marks d hd).1

theorem contains_point_toDigits (n : Nat) : (Nat.toDigits 16 n).contains '.' = false := by
  refine Bool.eq_false_iff.mpr fun hpoint => ?_
  obtain ⟨d, hd, heq⟩ := Hex.exists_of_mem_toDigits (List.contains_iff_mem.mp hpoint)
  exact (digitChar_ne_marks d hd).2 heq.symm

theorem colonText_eq (gs : List Nat) :
    colonText gs = [':'].intercalate (gs.map (Nat.toDigits 16)) := by
  rw [← Text.toList_intercalate (show ":".toList = [':'] from rfl), List.map_map]
  rfl

theorem isGroupChar_colonText {gs : List Nat} (h : c ∈ colonText gs) : IsGroupChar c := by
  rcases Text.mem_intercalate (colonText_eq gs ▸ h) with hcolon | ⟨l, hl, hc⟩
  · exact .inl hcolon
  · obtain ⟨g, -, rfl⟩ := List.mem_map.mp hl
    exact .inr (Hex.exists_of_mem_toDigits hc)

theorem contains_point_colonText (gs : List Nat) : (colonText gs).contains '.' = false := by
  refine Bool.eq_false_iff.mpr fun hpoint => ?_
  rcases isGroupChar_colonText (List.contains_iff_mem.mp hpoint) with hcolon | ⟨d, hd, heq⟩
  · cases hcolon
  · exact (digitChar_ne_marks d hd).2 heq.symm

theorem groups?_toDigits {gs : List Nat} (hne : gs ≠ []) (h : AreGroups gs) :
    groups? (gs.map (Nat.toDigits 16)) = some gs := by
  induction gs with
  | nil => exact absurd rfl hne
  | cons g rest ih =>
    obtain ⟨hg, hrest⟩ := List.forall_mem_cons.mp h
    cases rest with
    | nil =>
      rw [List.map_singleton, groups?, contains_point_toDigits, group?_toDigits hg]
      rfl
    | cons g' rest =>
      rw [List.map_cons, groups?, group?_toDigits hg, ih (by simp) hrest]
      · rfl
      · simp

theorem side?_colonText {gs : List Nat} (h : AreGroups gs) : side? (colonText gs) = some gs := by
  unfold side?
  by_cases hne : gs = []
  · subst hne
    rfl
  · have hparts : (colonText gs).splitOnP (· = ':') = gs.map (Nat.toDigits 16) := by
      rw [colonText_eq]
      refine Text.splitOnP_intercalate (by simpa using hne) fun l hl hmem => ?_
      obtain ⟨g, -, rfl⟩ := List.mem_map.mp hl
      exact ne_colon_of_mem_toDigits hmem rfl
    have hsome : (colonText gs).isEmpty = false := by
      refine Bool.eq_false_iff.mpr fun hempty => ?_
      rw [List.isEmpty_iff.mp hempty] at hparts
      cases gs with
      | nil => exact hne rfl
      | cons g rest => exact Nat.toDigits_ne_nil (List.cons_eq_cons.mp hparts).1.symm
    rw [hsome, hparts]
    exact groups?_toDigits hne h

/-! ## The gap -/

/-- What stands in front of the gap, and what behind it. -/
def inFront (front : List Char) (sides : List Char × List Char) : List Char × List Char :=
  (front ++ sides.1, sides.2)

theorem inFront_nil : inFront [] = id := rfl

theorem splitGap_cons {d : Char} {cs : List Char} (h : ¬ (c = ':' ∧ d = ':')) :
    splitGap (c :: d :: cs) = (splitGap (d :: cs)).map (inFront [c]) := by
  rw [splitGap]
  · rfl
  · rintro rest rfl heq
    exact h ⟨rfl, (List.cons_eq_cons.mp heq).1⟩

theorem splitGap_append {l : List Char} (h : ∀ c ∈ l, c ≠ ':') (cs : List Char) :
    splitGap (l ++ cs) = (splitGap cs).map (inFront l) := by
  induction l with
  | nil =>
    rw [List.nil_append, inFront_nil, Option.map_id]
    rfl
  | cons c rest ih =>
    obtain ⟨hc, hrest⟩ := List.forall_mem_cons.mp h
    rw [List.cons_append, splitGap]
    · rw [ih hrest]
      cases splitGap cs <;> rfl
    · rintro _ rfl
      exact absurd rfl hc

/-- No gap stands between groups. -/
theorem splitGap_colonText (gs : List Nat) (cs : List Char) :
    splitGap (colonText gs ++ cs) = (splitGap cs).map (inFront (colonText gs)) := by
  rw [colonText_eq]
  induction gs with
  | nil => exact splitGap_append (l := []) (by simp) cs
  | cons g rest ih =>
    have hdigits : ∀ c ∈ Nat.toDigits 16 g, c ≠ ':' := fun c => ne_colon_of_mem_toDigits
    cases rest with
    | nil =>
      rw [List.map_singleton, List.intercalate_singleton]
      exact splitGap_append hdigits cs
    | cons g' rest =>
      obtain ⟨d, ds, hds⟩ := List.exists_cons_of_ne_nil (Nat.toDigits_ne_nil (n := g') (b := 16))
      have hd : d ≠ ':' := ne_colon_of_mem_toDigits (hds ▸ List.mem_cons_self)
      have hhead : ∃ tail, [':'].intercalate ((g' :: rest).map (Nat.toDigits 16)) = d :: tail := by
        cases rest with
        | nil => exact ⟨ds, by simp [hds]⟩
        | cons g'' rest =>
          rw [List.map_cons, List.map_cons, List.intercalate_cons_cons, hds]
          exact ⟨_, rfl⟩
      obtain ⟨tail, htail⟩ := hhead
      rw [htail] at ih
      rw [List.map_cons, List.map_cons, List.intercalate_cons_cons, ← List.map_cons, htail,
        List.append_assoc, List.append_assoc, splitGap_append hdigits, List.singleton_append,
        List.cons_append, splitGap_cons fun h => hd h.2, ← List.cons_append, ih]
      cases splitGap cs with
      | none => rfl
      | some sides => simp [inFront]

theorem eightGroups?_colonText {gs : List Nat} (h : AreGroups gs) (hlength : gs.length = 8) :
    eightGroups? (colonText gs) = some gs := by
  have hgap : splitGap (colonText gs) = none := by
    rw [← List.append_nil (colonText gs), splitGap_colonText]
    rfl
  unfold eightGroups?
  rw [hgap]
  dsimp only
  rw [side?_colonText h, Option.bind_some, if_pos hlength]

/-- The gap stands for the groups of zeros that are missing. -/
theorem eightGroups?_gap {a b : List Nat} {run : Nat} (ha : AreGroups a) (hb : AreGroups b)
    (hrun : 0 < run) (hlength : a.length + run + b.length = 8) :
    eightGroups? (colonText a ++ [':', ':'] ++ colonText b) =
      some (a ++ List.replicate run 0 ++ b) := by
  have hgap : splitGap (colonText a ++ [':', ':'] ++ colonText b) =
      some (colonText a, colonText b) := by
    rw [List.append_assoc, splitGap_colonText]
    simp [splitGap, inFront]
  have hzeros : 8 - a.length - b.length = run := by omega
  unfold eightGroups?
  rw [hgap]
  dsimp only
  rw [contains_point_colonText, if_neg Bool.false_ne_true, side?_colonText ha,
    side?_colonText hb, Option.bind_some, Option.bind_some, if_pos (by omega), hzeros]

/-- The longest run of zeros is one: it stands between what is in front and what is behind. -/
theorem longestRun_spec (i : Nat) (gs : List Nat) :
    (longestRun i gs).2 = 0 ∨ ∃ a b, gs = a ++ List.replicate (longestRun i gs).2 0 ++ b ∧
      (longestRun i gs).1 = i + a.length := by
  induction gs generalizing i with
  | nil => exact .inl rfl
  | cons g rest ih =>
    rw [longestRun]
    split
    · have hzeros : (g :: rest).takeWhile (· = 0) = List.replicate (zeroRun (g :: rest)) 0 :=
        List.eq_replicate_of_mem fun n hn => by simpa using List.mem_takeWhile_imp hn
      refine .inr ⟨[], (g :: rest).dropWhile (· = 0), ?_, rfl⟩
      dsimp only
      rw [List.nil_append, ← hzeros, List.takeWhile_append_dropWhile]
    · next hlater =>
      rcases ih (i + 1) with hnone | ⟨a, b, heq, hstart⟩
      · rw [hnone] at hlater
        omega
      · refine .inr ⟨g :: a, b, ?_, ?_⟩
        · rw [List.cons_append, List.cons_append, ← heq]
        · rw [hstart, List.length_cons]
          omega

/-- Eight groups in brackets are read as these groups. -/
theorem exists_bracketed {gs : List Nat} (h : AreGroups gs) (hlength : gs.length = 8) :
    ∃ inner, bracketed gs = '[' :: inner ++ [']'] ∧ eightGroups? inner = some gs ∧
      ∀ c ∈ inner, IsGroupChar c := by
  unfold bracketed
  rcases hrun : longestRun 0 gs with ⟨start, run⟩
  dsimp only
  by_cases hshort : run < 2
  · exact ⟨_, rfl, by rw [if_pos hshort]; exact eightGroups?_colonText h hlength,
      by rw [if_pos hshort]; exact fun c => isGroupChar_colonText⟩
  · refine ⟨_, rfl, ?_, ?_⟩
    · rw [if_neg hshort]
      have hspec := longestRun_spec 0 gs
      rw [hrun] at hspec
      rcases hspec with hnone | ⟨a, b, heq, hstart⟩
      · dsimp only at hnone
        omega
      · dsimp only at heq hstart
        rw [Nat.zero_add] at hstart
        have hfront : gs.take start = a := by
          rw [heq, hstart, List.append_assoc, List.take_left]
        have hbehind : gs.drop (start + run) = b := by
          have hlength : start + run = (a ++ List.replicate run 0).length := by simp [hstart]
          rw [heq, hlength, List.drop_left]
        have hparts := heq ▸ h
        obtain ⟨hparts, hb⟩ := List.forall_mem_append.mp hparts
        have ha := (List.forall_mem_append.mp hparts).1
        have htotal : a.length + run + b.length = 8 := by
          rw [← hlength, heq, List.length_append, List.length_append, List.length_replicate]
        have hpos : 0 < run := by omega
        rw [hfront, hbehind, eightGroups?_gap ha hb hpos htotal, ← heq]
    · rw [if_neg hshort]
      refine List.forall_mem_append.mpr ⟨List.forall_mem_append.mpr
        ⟨fun c => isGroupChar_colonText, ?_⟩, fun c => isGroupChar_colonText⟩
      simp [IsGroupChar]

/-! ## Hosts -/

/-- A host as it stands in a URL that has been read. -/
inductive IsHost : List Char → Prop where
  | name {name : List Char} {labels : List (List Char)} (h : IsName name labels)
    (hword : endsInNumber name = false) : IsHost name
  | numbers {n : Nat} (h : n < 2 ^ 32) : IsHost (dotted n)
  | groups {gs : List Nat} (h : AreGroups gs) (hlength : gs.length = 8) : IsHost (bracketed gs)

theorem isHost_of_ofWebChars (h : ofWebChars cs = .ok host) : IsHost host := by
  by_cases hfirst : cs.head? = some '['
  · obtain ⟨rest, rfl⟩ := List.head?_eq_some_iff.mp hfirst
    rw [ofWebChars] at h
    split at h
    · next inner _ =>
      cases hgroups : eightGroups? inner.reverse with
      | none => rw [hgroups] at h; cases h
      | some gs =>
        rw [hgroups] at h
        obtain rfl := Except.ok.inj h
        obtain ⟨hall, hlength⟩ := eightGroups?_spec hgroups
        exact .groups hall hlength
    · cases h
  · obtain ⟨name, labels, hname, ⟨hword, rfl⟩ | ⟨n, hn, rfl⟩⟩ :=
      exists_isName_of_ofWebChars hfirst h
    · exact .name hname hword
    · exact .numbers (fourNumbers?_lt hn)

/-- A host that has been read is read as it stands. -/
theorem IsHost.ofWebChars_eq (h : IsHost host) : ofWebChars host = .ok host := by
  cases h with
  | name h hword => rw [h.ofWebChars_eq, hword]; rfl
  | numbers h =>
    rw [(isName_dotted _).ofWebChars_eq, endsInNumber_dotted, fourNumbers?_dotted h]
    rfl
  | groups h hlength =>
    obtain ⟨inner, hinner, hgroups, -⟩ := exists_bracketed h hlength
    have hback : (inner ++ [']']).reverse = ']' :: inner.reverse := by simp
    rw [hinner, List.cons_append, ofWebChars, hback]
    change (eightGroups? inner.reverse.reverse).elim _ (Except.ok ∘ bracketed) = _
    rw [List.reverse_reverse, hgroups]
    exact congrArg Except.ok hinner

end ChainAccess.Url.Host
