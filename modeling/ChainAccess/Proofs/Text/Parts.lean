import ChainAccess.Text.Lower
import Mathlib.Data.List.DropRight
-- Parts of texts: what is left of a text without its end, and the parts between marks.

namespace ChainAccess.Text

variable {p : Char → Bool} {c : Char} {cs s : List Char}

/-! ## Without the end -/

theorem trimEnd_concat_of_pos (h : p c = true) : trimEnd p (cs ++ [c]) = trimEnd p cs :=
  List.rdropWhile_concat_pos p cs c h

theorem trimEnd_concat_of_neg (h : p c = false) : trimEnd p (cs ++ [c]) = cs ++ [c] :=
  List.rdropWhile_concat_neg p cs c (by simp [h])

theorem trimEnd_trimEnd (p : Char → Bool) (cs : List Char) :
    trimEnd p (trimEnd p cs) = trimEnd p cs :=
  List.rdropWhile_idempotent p cs

theorem mem_of_mem_trimEnd (h : c ∈ trimEnd p cs) : c ∈ cs :=
  (List.rdropWhile_prefix p cs).subset h

/-- What stays at the end of a text stays in front of another. -/
theorem trimEnd_append (h : trimEnd p cs = cs) (ds : List Char) :
    trimEnd p (cs ++ ds) = cs ++ trimEnd p ds := by
  induction ds using List.reverseRecOn with
  | nil => rw [List.append_nil, h]; exact (List.append_nil cs).symm
  | append_singleton ds d ih =>
    rw [← List.append_assoc]
    by_cases hd : p d = true
    · rw [trimEnd_concat_of_pos hd, trimEnd_concat_of_pos hd, ih]
    · have hd : p d = false := by simpa using hd
      rw [trimEnd_concat_of_neg hd, trimEnd_concat_of_neg hd, List.append_assoc]

theorem trimEnd_eq_self_iff : trimEnd p cs = cs ↔ ∀ c, cs.getLast? = some c → p c = false := by
  rcases List.eq_nil_or_concat' cs with rfl | ⟨ds, d, rfl⟩
  · simp [trimEnd]
  · rw [List.getLast?_concat]
    by_cases hd : p d = true
    · have hne : trimEnd p ds ≠ ds ++ [d] := by
        intro heq
        have hlength := (List.rdropWhile_prefix p ds).length_le
        rw [show ds.rdropWhile p = ds ++ [d] from heq, List.length_append] at hlength
        exact absurd hlength (Nat.not_succ_le_self _)
      rw [trimEnd_concat_of_pos hd]
      simp [hne, hd]
    · rw [trimEnd_concat_of_neg (by simpa using hd)]
      simpa using hd

/-! ## Between marks -/

/-- The parts hold the characters of the text that are no marks. -/
theorem of_mem_splitOnP :
    ∀ (cs : List Char), ∀ s ∈ cs.splitOnP p, ∀ c ∈ s, c ∈ cs ∧ p c = false := by
  intro cs
  induction cs with
  | nil => simp
  | cons d rest ih =>
    have hrest : ∀ s ∈ rest.splitOnP p, ∀ c ∈ s, c ∈ d :: rest ∧ p c = false :=
      fun s hs c hc => ⟨List.mem_cons_of_mem d (ih s hs c hc).1, (ih s hs c hc).2⟩
    rw [List.splitOnP_cons_eq_if_modifyHead]
    split
    · exact List.forall_mem_cons.mpr ⟨by simp, hrest⟩
    · next hd =>
      cases hparts : rest.splitOnP p with
      | nil => exact absurd hparts (List.splitOnP_ne_nil p rest)
      | cons head parts =>
        rw [hparts] at hrest
        obtain ⟨hhead, hparts⟩ := List.forall_mem_cons.mp hrest
        have hd : d ∈ d :: rest ∧ p d = false := ⟨List.mem_cons_self, by simpa using hd⟩
        rw [List.modifyHead_cons]
        exact List.forall_mem_cons.mpr ⟨List.forall_mem_cons.mpr ⟨hd, hhead⟩, hparts⟩

theorem splitOnP_intercalate {mark : Char} {parts : List (List Char)} (hne : parts ≠ [])
    (h : ∀ s ∈ parts, mark ∉ s) : ([mark].intercalate parts).splitOnP (· = mark) = parts :=
  List.splitOn_intercalate mark h hne

theorem mem_intercalate {mark : Char} {parts : List (List Char)}
    (h : c ∈ [mark].intercalate parts) : c = mark ∨ ∃ s ∈ parts, c ∈ s := by
  induction parts with
  | nil => cases h
  | cons s rest ih =>
    cases rest with
    | nil => exact .inr ⟨s, List.mem_cons_self, by simpa using h⟩
    | cons t rest =>
      rw [List.intercalate_cons_cons, List.mem_append, List.mem_append, List.mem_singleton] at h
      rcases h with (hs | hmark) | hrest
      · exact .inr ⟨s, List.mem_cons_self, hs⟩
      · exact .inl hmark
      · exact (ih hrest).imp_right fun ⟨u, hu, hc⟩ => ⟨u, List.mem_cons_of_mem _ hu, hc⟩

theorem toList_intercalate {sep : String} {mark : Char} (h : sep.toList = [mark])
    (parts : List (List Char)) :
    (sep.intercalate (parts.map String.ofList)).toList = [mark].intercalate parts := by
  rw [String.toList_intercalate, List.map_map, h]
  simp [Function.comp_def]

end ChainAccess.Text
