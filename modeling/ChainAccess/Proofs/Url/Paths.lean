import ChainAccess.Proofs.Text.Parts
import ChainAccess.Proofs.Url.Percent
import ChainAccess.Url.Basic
import Mathlib.Tactic.Common
-- Paths of web URLs. A path that has been read is a row of segments none of which is
-- parted, a step in place or a step back, so it is read as it stands. Without slashes at
-- its end it is the path of its first segments.

namespace ChainAccess.Url

variable {c : Char} {cs s : List Char} {segs : List (List Char)}

/-! ## Points behind percent signs -/

theorem dots_cons (h : c ≠ '%') (cs : List Char) : dots (c :: cs) = c :: dots cs := by
  rw [dots]
  · rintro _ rfl
    exact absurd rfl h
  · rintro _ rfl
    exact absurd rfl h

theorem codeDigit_ne_mark : ∀ n < 16, codeDigit n ≠ '%' := by decide

theorem codeDigit_eq_two : ∀ n < 16, codeDigit n = '2' → n = 2 := by decide

theorem codeDigit_eq_e : ∀ n < 16, codeDigit n = 'E' → n = 14 := by decide

theorem codeDigit_ne_e : ∀ n < 16, codeDigit n ≠ 'e' := by decide

/-- A code is a point only if its byte is. -/
theorem dots_append_percentByte {b : UInt8} (h : b.toNat ≠ 0x2e) (cs : List Char) :
    dots (percentByte b ++ cs) = percentByte b ++ dots cs := by
  have hbyte := b.toNat_lt
  have hhigh : b.toNat / 16 < 16 := by omega
  have hlow : b.toNat % 16 < 16 := by omega
  simp only [percentByte_eq, List.cons_append, List.nil_append]
  rw [dots, dots_cons (codeDigit_ne_mark _ hhigh), dots_cons (codeDigit_ne_mark _ hlow)]
  · intro rest _ heq
    exact absurd (List.cons_eq_cons.mp (List.cons_eq_cons.mp heq).2).1 (codeDigit_ne_e _ hlow)
  · intro rest _ heq
    have htwo := codeDigit_eq_two _ hhigh (List.cons_eq_cons.mp heq).1
    have he := codeDigit_eq_e _ hlow (List.cons_eq_cons.mp (List.cons_eq_cons.mp heq).2).1
    omega

theorem dots_append_bytes {bs : List UInt8} (h : ∀ b ∈ bs, b.toNat ≠ 0x2e) (cs : List Char) :
    dots (bs.flatMap percentByte ++ cs) = bs.flatMap percentByte ++ dots cs := by
  induction bs with
  | nil => rfl
  | cons b rest ih =>
    rw [List.flatMap_cons, List.append_assoc, dots_append_percentByte (h b List.mem_cons_self),
      ih fun b hb => h b (List.mem_cons_of_mem _ hb), List.append_assoc]

/-- The bytes of a character are its own, or none of a plain character. -/
theorem ne_point_of_mem_utf8EncodeChar (h : c ≠ '.') :
    ∀ b ∈ String.utf8EncodeChar c, b.toNat ≠ 0x2e := by
  intro b hb heq
  by_cases hplain : c.toNat < 128
  · rw [Utf8.utf8EncodeChar_of_plain hplain, List.mem_singleton] at hb
    subst hb
    rw [UInt8.toNat_ofNat_of_lt' (Nat.lt_trans hplain (by decide))] at heq
    exact h (by rw [← Char.ofNat_toNat c, heq])
  · have hle := Utf8.le_of_mem_utf8EncodeChar (Nat.le_of_not_lt hplain) b hb
    omega

/-- The first character of a coded text is that of the text, unless it is a percent sign. -/
theorem exists_of_percentEncode_eq_cons {plain : Char → Bool} {ds : List Char} (hc : c ≠ '%')
    (h : percentEncode plain cs = c :: ds) :
    ∃ rest, cs = c :: rest ∧ percentEncode plain rest = ds := by
  cases cs with
  | nil => cases h
  | cons d rest =>
    rw [percentEncode_cons] at h
    by_cases hplain : plain d = true
    · rw [percentChar, if_pos hplain] at h
      obtain ⟨rfl, hrest⟩ := List.cons_eq_cons.mp h
      exact ⟨rest, rfl, hrest⟩
    · obtain ⟨tail, htail⟩ := exists_percentChar (Bool.eq_false_iff.mpr hplain)
      rw [htail] at h
      exact absurd (List.cons_eq_cons.mp h).1.symm hc

/-- Coding neither makes points nor hides them. -/
theorem dots_percentEncode (cs : List Char) :
    dots (percentEncode isPathChar cs) = percentEncode isPathChar (dots cs) := by
  have hcons : ∀ c rest, isPathChar c = true →
      percentEncode isPathChar (c :: rest) = c :: percentEncode isPathChar rest := by
    intro c rest hc
    rw [percentEncode_cons, percentChar, if_pos hc]
    rfl
  fun_induction dots cs with
  | case1 rest ih =>
    rw [hcons _ _ (by decide), hcons _ _ (by decide), hcons _ _ (by decide), dots, ih,
      hcons _ _ (by decide)]
  | case2 rest ih =>
    rw [hcons _ _ (by decide), hcons _ _ (by decide), hcons _ _ (by decide), dots, ih,
      hcons _ _ (by decide)]
  | case3 c rest hsmall hlarge ih =>
    by_cases hc : isPathChar c = true
    · rw [hcons _ _ hc, hcons _ _ hc, dots, ih]
      · rintro tail rfl heq
        obtain ⟨more, rfl, hmore⟩ := exists_of_percentEncode_eq_cons (by decide) heq
        obtain ⟨more, rfl, -⟩ := exists_of_percentEncode_eq_cons (by decide) hmore
        exact hsmall more rfl rfl
      · rintro tail rfl heq
        obtain ⟨more, rfl, hmore⟩ := exists_of_percentEncode_eq_cons (by decide) heq
        obtain ⟨more, rfl, -⟩ := exists_of_percentEncode_eq_cons (by decide) hmore
        exact hlarge more rfl rfl
    · have hpoint : c ≠ '.' := by
        rintro rfl
        exact hc (by decide)
      rw [percentEncode_cons, percentEncode_cons, percentChar, if_neg hc, encode_singleton,
        dots_append_bytes (ne_point_of_mem_utf8EncodeChar hpoint), ih]
  | case4 => rfl

/-! ## Segments -/

/-- A segment as it stands in a path that has been read. -/
structure IsSegment (s : List Char) : Prop where
  plain : ∀ c ∈ s, isPathChar c = true
  whole : ∀ c ∈ s, isSlash true c = false
  no_stay : dots s ≠ ['.']
  no_back : dots s ≠ ['.', '.']

theorem isSegment_nil : IsSegment [] := ⟨by simp, by simp, by decide, by decide⟩

theorem isSlash_codeDigit : ∀ n < 16, isSlash true (codeDigit n) = false := by decide

theorem isSegment_percentEncode (hwhole : ∀ c ∈ s, isSlash true c = false)
    (hstay : dots s ≠ ['.']) (hback : dots s ≠ ['.', '.']) :
    IsSegment (percentEncode isPathChar s) where
  plain _ hc := holdsCodes_isPathChar.plain_of_mem hc
  whole c hc := by
    rcases mem_percentEncode hc with ⟨hmem, -⟩ | rfl | ⟨n, hn, rfl⟩
    · exact hwhole c hmem
    · decide
    · exact isSlash_codeDigit n hn
  no_stay heq := by
    rw [dots_percentEncode] at heq
    exact hstay ((percentEncode_of_unmarked (by rw [heq]; decide)).symm.trans heq)
  no_back heq := by
    rw [dots_percentEncode] at heq
    exact hback ((percentEncode_of_unmarked (by rw [heq]; decide)).symm.trans heq)

theorem IsSegment.percentEncode_eq (h : IsSegment s) : percentEncode isPathChar s = s :=
  percentEncode_of_plain h.plain

/-- Resolving leaves segments, and at least one. -/
theorem isSegment_resolveDots {done : List (List Char)} (hdone : ∀ s ∈ done, IsSegment s)
    (hsegs : ∀ s ∈ segs, ∀ c ∈ s, isSlash true c = false) (hne : done ≠ [] ∨ segs ≠ []) :
    resolveDots done segs ≠ [] ∧ ∀ s ∈ resolveDots done segs, IsSegment s := by
  have hpushed : ∀ {s done}, IsSegment s → (∀ s ∈ done, IsSegment s) →
      ∀ t ∈ s :: done, IsSegment t := fun hs hdone => List.forall_mem_cons.mpr ⟨hs, hdone⟩
  fun_induction resolveDots done segs with
  | case1 done =>
    refine ⟨?_, fun s hs => hdone s (List.mem_reverse.mp hs)⟩
    simpa using hne
  | case2 done s rest d hback ih =>
    have hdropped : ∀ s ∈ done.drop 1, IsSegment s := fun s hs => hdone s (List.mem_of_mem_drop hs)
    refine ih ?_ (fun t ht => hsegs t (List.mem_cons_of_mem _ ht)) ?_
    · split
      · exact hpushed isSegment_nil hdropped
      · exact hdropped
    · cases rest <;> simp
  | case3 done s rest d hback hstay ih =>
    refine ih ?_ (fun t ht => hsegs t (List.mem_cons_of_mem _ ht)) ?_
    · split
      · exact hpushed isSegment_nil hdone
      · exact hdone
    · cases rest <;> simp
  | case4 done s rest d hback hstay ih =>
    have hs := isSegment_percentEncode (hsegs s List.mem_cons_self) hstay hback
    exact ih (hpushed hs hdone) (fun t ht => hsegs t (List.mem_cons_of_mem _ ht))
      (.inl (List.cons_ne_nil _ _))

theorem resolveDots_of_segments (h : ∀ s ∈ segs, IsSegment s) (done : List (List Char)) :
    resolveDots done segs = done.reverse ++ segs := by
  induction segs generalizing done with
  | nil => rw [resolveDots, List.append_nil]
  | cons s rest ih =>
    have hs := h s List.mem_cons_self
    rw [resolveDots, if_neg hs.no_back, if_neg hs.no_stay, hs.percentEncode_eq,
      ih fun t ht => h t (List.mem_cons_of_mem _ ht), List.reverse_cons, List.append_assoc]
    rfl

/-! ## The text of a path -/

/-- The text of a path of segments. -/
def segmentsText (segs : List (List Char)) : List Char := segs.flatMap ('/' :: ·)

@[simp] theorem segmentsText_nil : segmentsText [] = [] := rfl

theorem segmentsText_cons (s : List Char) (segs : List (List Char)) :
    segmentsText (s :: segs) = '/' :: (s ++ segmentsText segs) := rfl

theorem segmentsText_concat (segs : List (List Char)) (s : List Char) :
    segmentsText (segs ++ [s]) = segmentsText segs ++ '/' :: s := by
  simp [segmentsText]

theorem splitOnP_segmentsText (h : ∀ t ∈ s :: segs, ∀ c ∈ t, isSlash true c = false) :
    (s ++ segmentsText segs).splitOnP (isSlash true) = s :: segs := by
  have hs := h s List.mem_cons_self
  induction segs generalizing s with
  | nil => rw [segmentsText_nil, List.append_nil, List.splitOnP_eq_singleton hs]
  | cons t rest ih =>
    have hrest : ∀ u ∈ t :: rest, ∀ c ∈ u, isSlash true c = false :=
      fun u hu => h u (List.mem_cons_of_mem _ hu)
    rw [segmentsText_cons, List.splitOnP_append_cons_of_forall_mem hs '/' (by decide),
      ih hrest (hrest t List.mem_cons_self)]

/-- The text of a path that has been read. -/
structure IsPath (path : List Char) (segs : List (List Char)) : Prop where
  ne_nil : segs ≠ []
  segment : ∀ s ∈ segs, IsSegment s
  eq : path = segmentsText segs

theorem exists_isPath_pathText (cs : List Char) : ∃ segs, IsPath (pathText true cs) segs := by
  unfold pathText
  split
  · exact ⟨[[]], by simp, by simpa using isSegment_nil, rfl⟩
  · next c rest =>
    dsimp only
    have hdone : ∀ s ∈ ([] : List (List Char)), IsSegment s := by simp
    obtain ⟨hne, hsegment⟩ := isSegment_resolveDots hdone
      (fun s hs c hc => (Text.of_mem_splitOnP _ s hs c hc).2)
      (.inr (List.splitOnP_ne_nil _ _))
    exact ⟨_, hne, hsegment, rfl⟩

/-- A path that has been read is read as it stands. -/
theorem IsPath.pathText_eq {path : List Char} (h : IsPath path segs) :
    pathText true path = path := by
  obtain ⟨hne, hsegment, rfl⟩ := h
  cases segs with
  | nil => exact absurd rfl hne
  | cons s rest =>
    have hslash : isSlash true '/' = true := by decide
    rw [segmentsText_cons, pathText, if_pos hslash,
      splitOnP_segmentsText fun t ht => (hsegment t ht).whole, resolveDots_of_segments hsegment]
    rfl

theorem eq_slash_of_head? (segs : List (List Char)) :
    ∀ c, (segmentsText segs).head? = some c → c = '/' := by
  intro c hc
  cases segs with
  | nil => cases hc
  | cons s rest =>
    rw [segmentsText_cons, List.head?_cons] at hc
    exact (Option.some.inj hc).symm

theorem isPathChar_of_mem_segmentsText (h : ∀ s ∈ segs, IsSegment s) :
    ∀ c ∈ segmentsText segs, isPathChar c = true := by
  intro c hc
  obtain ⟨s, hs, hmem⟩ := List.mem_flatMap.mp hc
  rcases List.mem_cons.mp hmem with rfl | hmem
  · decide
  · exact (h s hs).plain c hmem

/-! ## Without the slashes at the end -/

/-- Drops the slashes at the end of a text. -/
def unslashed (cs : List Char) : List Char := Text.trimEnd (· = '/') cs

theorem unslashed_unslashed (cs : List Char) : unslashed (unslashed cs) = unslashed cs :=
  Text.trimEnd_trimEnd _ cs

theorem unslashed_append (h : unslashed cs = cs) (ds : List Char) :
    unslashed (cs ++ ds) = cs ++ unslashed ds :=
  Text.trimEnd_append h ds

theorem unslashed_eq_self_iff : unslashed cs = cs ↔ cs.getLast? ≠ some '/' := by
  unfold unslashed
  rw [Text.trimEnd_eq_self_iff]
  constructor
  · intro h hlast
    exact absurd (h '/' hlast) (by decide)
  · intro h c hlast
    exact decide_eq_false fun heq => h (heq ▸ hlast)

theorem unslashed_concat (hc : c ≠ '/') (cs : List Char) : unslashed (cs ++ [c]) = cs ++ [c] :=
  Text.trimEnd_concat_of_neg (decide_eq_false hc)

/-- A path without the slashes at its end has the segments of the path without the empty
ones at its end. -/
theorem exists_unslashed_segmentsText (h : ∀ s ∈ segs, IsSegment s) :
    ∃ kept, (∀ s ∈ kept, IsSegment s) ∧ unslashed (segmentsText segs) = segmentsText kept := by
  induction segs using List.reverseRecOn with
  | nil => exact ⟨[], by simp, rfl⟩
  | append_singleton segs s ih =>
    rcases List.eq_nil_or_concat' s with rfl | ⟨init, c, rfl⟩
    · rw [segmentsText_concat, unslashed, Text.trimEnd_concat_of_pos (by decide)]
      exact ih fun t ht => h t (List.mem_append_left _ ht)
    · refine ⟨_, h, ?_⟩
      have hc : c ≠ '/' := by
        rintro rfl
        exact absurd ((h (init ++ ['/']) (by simp)).whole '/' (by simp)) (by decide)
      rw [segmentsText_concat, ← List.cons_append, ← List.append_assoc, unslashed_concat hc]

/-- The path that is read where the slashes at its end are missing: a web URL is never
without a path. -/
def unslashedPath (path : List Char) : List Char :=
  if (unslashed path).isEmpty then ['/'] else unslashed path

theorem unslashed_unslashedPath (path : List Char) :
    unslashed (unslashedPath path) = unslashed path := by
  unfold unslashedPath
  split
  · next hempty =>
    rw [List.isEmpty_iff.mp hempty]
    rfl
  · exact unslashed_unslashed path

theorem IsPath.pathText_unslashed {path : List Char} (h : IsPath path segs) :
    pathText true (unslashed path) = unslashedPath path := by
  obtain ⟨hne, hsegment, rfl⟩ := h
  obtain ⟨kept, hkept, heq⟩ := exists_unslashed_segmentsText hsegment
  rw [unslashedPath, heq]
  cases kept with
  | nil => rfl
  | cons s rest =>
    have hread : IsPath (segmentsText (s :: rest)) (s :: rest) := ⟨by simp, hkept, rfl⟩
    rw [hread.pathText_eq]
    rfl

end ChainAccess.Url
