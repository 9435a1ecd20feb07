import ChainAccess.Proofs.Json.Records
import ChainAccess.Proofs.Url.Authorities
import Mathlib.Data.List.Basic
import Mathlib.Tactic.Common
-- Whole web URLs. One that has been read is written as its parts, and from the text of
-- parts in the form of parts that have been read it is read as these parts.

namespace ChainAccess.Url

variable {c : Char} {cs rest scheme host path : List Char} {query fragment : Option (List Char)}
  {segs : List (List Char)} {u v : Url}

/-! ## Reading a whole URL -/

theorem clean_eq (h : ∀ c ∈ cs, 0x20 < c.toNat) : clean cs = cs := by
  have hedge : ∀ ds : List Char, (∀ c ∈ ds, 0x20 < c.toNat) → ds.dropWhile isEdge = ds := by
    intro ds hds
    cases ds with
    | nil => rfl
    | cons c rest =>
      have hc : isEdge c = false := by simpa [isEdge] using hds c List.mem_cons_self
      rw [List.dropWhile_cons, hc]
      rfl
  have hbreak : ∀ c ∈ cs, (!isBreak c) = true := by
    intro c hc
    have hvisible := h c hc
    rw [Bool.not_eq_true', Bool.eq_false_iff]
    intro hbad
    simp only [isBreak, Bool.or_eq_true, decide_eq_true_eq] at hbad
    rcases hbad with (rfl | rfl) | rfl <;> exact absurd hvisible (by decide)
  unfold clean
  rw [hedge cs h, hedge cs.reverse fun c hc => h c (List.mem_reverse.mp hc), List.reverse_reverse,
    List.filter_eq_self.mpr hbreak]

theorem scheme_of_readAuthority (h : readAuthority scheme cs query fragment = .ok u) :
    u.scheme = scheme := by
  unfold readAuthority at h
  dsimp only at h
  split at h
  · cases h
  · split at h
    · obtain ⟨host, -, h⟩ := Json.exists_of_bind h
      obtain ⟨port, -, h⟩ := Json.exists_of_bind h
      exact (congrArg Url.scheme (Except.ok.inj h)).symm
    · split at h
      · obtain ⟨host, -, h⟩ := Json.exists_of_bind h
        obtain ⟨port, -, h⟩ := Json.exists_of_bind h
        exact (congrArg Url.scheme (Except.ok.inj h)).symm
      · obtain ⟨host, -, h⟩ := Json.exists_of_bind h
        obtain ⟨port, -, h⟩ := Json.exists_of_bind h
        exact (congrArg Url.scheme (Except.ok.inj h)).symm

/-- A URL has the scheme that its text starts with. -/
theorem exists_splitScheme (h : ofChars cs = .ok u) :
    ∃ rest, splitScheme (clean cs) = some (u.scheme, rest) := by
  unfold ofChars at h
  split at h
  · cases h
  · next scheme rest hsplit =>
    suffices hscheme : u.scheme = scheme from ⟨rest, hscheme ▸ hsplit⟩
    dsimp only at h
    split at h
    · split at h
      · split at h <;> exact scheme_of_readAuthority h
      · exact scheme_of_readAuthority h
    · split at h
      · exact scheme_of_readAuthority h
      · split at h
        · exact scheme_of_readAuthority h
        · exact (congrArg Url.scheme (Except.ok.inj h)).symm
        · exact (congrArg Url.scheme (Except.ok.inj h)).symm

/-- How a web URL is read: the fragment and the query from behind, the authority last. -/
theorem ofChars_eq {front body : List Char} (hweb : isWeb scheme = true)
    (hfile : scheme ≠ "file".toList) (hscheme : splitScheme (clean cs) = some (scheme, rest))
    (hfragment : splitMark '#' rest = (front, fragment))
    (hquery : splitMark '?' front = (body, query)) :
    ofChars cs = readAuthority scheme (body.dropWhile (isSlash true))
      (query.map (percentEncode isWebQueryChar)) (fragment.map (percentEncode isFragmentChar)) := by
  unfold ofChars
  rw [hscheme]
  dsimp only
  rw [hfragment]
  dsimp only
  rw [hquery]
  dsimp only
  rw [if_neg hfile, hweb]
  rfl

/-- A URL of the web that can be asked over HTTP. -/
def IsHttp (u : Url) : Prop := u.scheme = "http".toList ∨ u.scheme = "https".toList

theorem IsHttp.isWeb (h : u.IsHttp) : isWeb u.scheme = true := by
  rcases h with h | h <;> rw [h] <;> decide

theorem IsHttp.ne_file (h : u.IsHttp) : u.scheme ≠ "file".toList := by
  rcases h with h | h <;> rw [h] <;> decide

/-- A web URL as it is after reading. -/
structure IsRead (u : Url) (host : List Char) (segs : List (List Char)) : Prop where
  place : IsPlace u host
  path : IsPath u.path segs
  query : ∀ q, u.query = some q → ∀ c ∈ q, isWebQueryChar c = true
  fragment : ∀ f, u.fragment = some f → ∀ c ∈ f, isFragmentChar c = true

theorem exists_isRead (h : ofChars cs = .ok u) (hhttp : u.IsHttp) :
    ∃ host segs, IsRead u host segs := by
  obtain ⟨rest, hscheme⟩ := exists_splitScheme h
  rcases hfragment : splitMark '#' rest with ⟨front, fragment⟩
  rcases hquery : splitMark '?' front with ⟨body, query⟩
  rw [ofChars_eq hhttp.isWeb hhttp.ne_file hscheme hfragment hquery] at h
  obtain ⟨-, hq, hf, ⟨host, hplace⟩, segs, hpath⟩ :=
    isPlace_of_readAuthority hhttp.isWeb hhttp.ne_file h
  refine ⟨host, segs, hplace, hpath, ?_, ?_⟩
  · intro q heq
    rw [hq] at heq
    obtain ⟨raw, -, rfl⟩ := Option.map_eq_some_iff.mp heq
    exact fun c hc => holdsCodes_isWebQueryChar.plain_of_mem hc
  · intro f heq
    rw [hf] at heq
    obtain ⟨raw, -, rfl⟩ := Option.map_eq_some_iff.mp heq
    exact fun c hc => holdsCodes_isFragmentChar.plain_of_mem hc

/-! ## The text of a URL -/

/-- The text in front of the path. -/
def frontText (u : Url) (host : List Char) : List Char :=
  u.scheme ++ ':' :: '/' :: '/' :: placeText u host

/-- The text of a query behind the path. -/
def queryText (query : Option (List Char)) : List Char := query.elim [] ('?' :: ·)

/-- The text of a fragment at the end. -/
def fragmentText (fragment : Option (List Char)) : List Char := fragment.elim [] ('#' :: ·)

theorem chars_eq (h : IsPlace u host) :
    u.chars = frontText u host ++ (u.path ++ (queryText u.query ++ fragmentText u.fragment)) := by
  unfold chars frontText queryText fragmentText
  rw [authorityChars_eq h]
  simp

theorem splitMark_optional {mark : Char} {front : List Char} (h : mark ∉ front)
    (last : Option (List Char)) :
    splitMark mark (front ++ last.elim [] (mark :: ·)) = (front, last) := by
  cases last with
  | none => exact (congrArg _ (List.append_nil front)).trans (splitMark_of_notMem h)
  | some l => exact splitMark_append h l

/-- The parts of a web URL that stand behind its place. -/
structure IsTail (path : List Char) (query fragment : Option (List Char)) : Prop where
  rooted : ∀ c, path.head? = some c → c = '/'
  path : ∀ c ∈ path, isPathChar c = true
  query : ∀ q, query = some q → ∀ c ∈ q, isWebQueryChar c = true
  fragment : ∀ f, fragment = some f → ∀ c ∈ f, isFragmentChar c = true

theorem IsTail.lt_of_mem (h : IsTail path query fragment)
    (hc : c ∈ path ++ (queryText query ++ fragmentText fragment)) : 0x20 < c.toNat := by
  rw [List.mem_append, List.mem_append] at hc
  rcases hc with hpath | hquery | hfragment
  · exact lt_of_printableBut (h.path c hpath) (by decide)
  · cases hq : query with
    | none => rw [hq] at hquery; cases hquery
    | some q =>
      rw [hq] at hquery
      rcases List.mem_cons.mp hquery with rfl | hmem
      · decide
      · exact lt_of_printableBut (h.query q hq c hmem) (by decide)
  · cases hf : fragment with
    | none => rw [hf] at hfragment; cases hfragment
    | some f =>
      rw [hf] at hfragment
      rcases List.mem_cons.mp hfragment with rfl | hmem
      · decide
      · exact lt_of_printableBut (h.fragment f hf c hmem) (by decide)

theorem lt_of_mem_frontText (h : IsPlace u host) (hhttp : u.IsHttp) (hc : c ∈ frontText u host) :
    0x20 < c.toNat := by
  have hscheme : ∀ c ∈ u.scheme, 0x20 < c.toNat := by
    have hplain : "http".toList = ['h', 't', 't', 'p'] := rfl
    have hsafe : "https".toList = ['h', 't', 't', 'p', 's'] := rfl
    rcases hhttp with heq | heq <;> rw [heq]
    · rw [hplain]
      simp
    · rw [hsafe]
      simp
  have hplace : ∀ c ∈ placeText u host, 0x20 < c.toNat := by
    intro c hc
    rcases isPlaceChar_of_mem_placeText h hc with hchar | rfl
    · exact (isPlaceChar_iff.mp hchar).1
    · decide
  unfold frontText at hc
  rcases List.mem_append.mp hc with hmem | hmem
  · exact hscheme c hmem
  · simp only [List.mem_cons] at hmem
    rcases hmem with rfl | rfl | rfl | hmem
    · decide
    · decide
    · decide
    · exact hplace c hmem

theorem splitScheme_http (hhttp : u.IsHttp) (rest : List Char) :
    splitScheme (u.scheme ++ ':' :: rest) = some (u.scheme, rest) := by
  rcases hhttp with heq | heq <;> rw [heq] <;> rfl

/-- A written place is not empty, and what follows its slashes is no slash. -/
theorem dropWhile_place (h : IsPlace u host) (cs : List Char) :
    ('/' :: '/' :: (placeText u host ++ cs)).dropWhile (isSlash true) = placeText u host ++ cs := by
  have hslash : isSlash true '/' = true := by decide
  have hne : placeText u host ≠ [] := by
    intro heq
    exact h.host.ne_nil (List.append_eq_nil_iff.mp (List.append_eq_nil_iff.mp heq).2).1
  obtain ⟨d, ds, hds⟩ := List.exists_cons_of_ne_nil hne
  have hd : isSlash true d = false := by
    rcases isPlaceChar_of_mem_placeText h (hds ▸ List.mem_cons_self) with hchar | rfl
    · exact isSlash_of_isPlaceChar hchar
    · decide
  rw [hds, List.cons_append, List.dropWhile_cons, if_pos hslash, List.dropWhile_cons,
    if_pos hslash, List.dropWhile_cons, hd]
  rfl

/-- A web URL is read from the text of its parts, each as it stands. -/
theorem ofChars_text (h : IsPlace u host) (hhttp : u.IsHttp) (htail : IsTail path query fragment) :
    ofChars (frontText u host ++ (path ++ (queryText query ++ fragmentText fragment))) =
      .ok { u with path := pathText true path, query := query, fragment := fragment } := by
  have hvisible : ∀ c ∈ frontText u host ++
      (path ++ (queryText query ++ fragmentText fragment)), 0x20 < c.toNat :=
    List.forall_mem_append.mpr ⟨fun c => lt_of_mem_frontText h hhttp, fun c => htail.lt_of_mem⟩
  have hplace : ∀ {d : Char}, isPlaceChar d = false → d ≠ '@' → d ∉ placeText u host := by
    intro d hd hat hmem
    rcases isPlaceChar_of_mem_placeText h hmem with hchar | rfl
    · exact ne_of_isPlaceChar hchar hd rfl
    · exact hat rfl
  have hunasked : '?' ∉ '/' :: '/' :: (placeText u host ++ path) := by
    simp only [List.mem_cons, List.mem_append, not_or]
    exact ⟨by decide, by decide, hplace (by decide) (by decide), fun hmem =>
      ne_of_printableBut (htail.path '?' hmem) (by decide) rfl⟩
  have hunmarked : '#' ∉ '/' :: '/' :: (placeText u host ++ path) ++ queryText query := by
    simp only [List.cons_append, List.mem_cons, List.mem_append, not_or]
    refine ⟨by decide, by decide, ⟨hplace (by decide) (by decide), fun hmem =>
      ne_of_printableBut (htail.path '#' hmem) (by decide) rfl⟩, fun hmem => ?_⟩
    cases hq : query with
    | none => rw [hq] at hmem; cases hmem
    | some q =>
      rw [hq] at hmem
      rcases List.mem_cons.mp hmem with heq | hmem
      · cases heq
      · exact ne_of_printableBut (htail.query q hq '#' hmem) (by decide) rfl
  have hscheme : splitScheme (clean (frontText u host ++
      (path ++ (queryText query ++ fragmentText fragment)))) =
      some (u.scheme, ('/' :: '/' :: (placeText u host ++ path) ++ queryText query) ++
        fragmentText fragment) := by
    rw [clean_eq hvisible, ← splitScheme_http hhttp]
    simp [frontText]
  have hq : query.map (percentEncode isWebQueryChar) = query := by
    cases hq : query with
    | none => rfl
    | some q => exact congrArg some (percentEncode_of_plain (htail.query q hq))
  have hf : fragment.map (percentEncode isFragmentChar) = fragment := by
    cases hf : fragment with
    | none => rfl
    | some f => exact congrArg some (percentEncode_of_plain (htail.fragment f hf))
  rw [ofChars_eq hhttp.isWeb hhttp.ne_file hscheme (splitMark_optional hunmarked fragment)
    (splitMark_optional hunasked query), dropWhile_place h, hq, hf]
  exact h.readAuthority_eq hhttp.isWeb hhttp.ne_file htail.rooted

end ChainAccess.Url
