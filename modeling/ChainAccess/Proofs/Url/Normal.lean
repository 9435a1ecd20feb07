import ChainAccess.Pool.Http
import ChainAccess.Proofs.Url.Reading
import Mathlib.Data.List.Basic
import Mathlib.Tactic.Common
-- The normal form of the URL of an endpoint: its text in one form, without the slashes at
-- the end. Where they end the path, the same endpoint is meant. But the whole text is cut:
-- where a query or a fragment ends it, the slashes are those of the query or the fragment.

namespace ChainAccess.Url

variable {c : Char} {host part : List Char} {segs : List (List Char)} {u v : Url}

/-! ## The text without its last slashes -/

theorem unslashed_frontText (h : IsPlace u host) :
    unslashed (frontText u host) = frontText u host := by
  have hne : host ++ portText u.port ≠ [] := fun heq =>
    h.host.ne_nil (List.append_eq_nil_iff.mp heq).1
  obtain ⟨init, c, hlast⟩ := (List.eq_nil_or_concat' (host ++ portText u.port)).resolve_left hne
  have hc : c ≠ '/' := ne_of_isPlaceChar
    (isPlaceChar_of_mem_host_port h (hlast ▸ List.mem_concat_self)) (by decide)
  have htext : frontText u host =
      (u.scheme ++ ':' :: '/' :: '/' :: (u.loginChars ++ init)) ++ [c] := by
    simp [frontText, placeText, hlast]
  rw [htext, unslashed_concat hc]

section

variable (h : IsPlace u host)
include h

theorem unslashed_chars_of_fragment {f : List Char} (hf : u.fragment = some f) :
    unslashed u.chars = frontText u host ++
      (u.path ++ (queryText u.query ++ fragmentText (some (unslashed f)))) := by
  have htext : u.chars = (frontText u host ++ (u.path ++ queryText u.query) ++ ['#']) ++ f := by
    rw [chars_eq h, hf]
    simp [fragmentText]
  rw [htext, unslashed_append (unslashed_concat (by decide) _)]
  simp [fragmentText]

theorem unslashed_chars_of_query {q : List Char} (hf : u.fragment = none) (hq : u.query = some q) :
    unslashed u.chars = frontText u host ++
      (u.path ++ (queryText (some (unslashed q)) ++ fragmentText none)) := by
  have htext : u.chars = (frontText u host ++ u.path ++ ['?']) ++ q := by
    rw [chars_eq h, hf, hq]
    simp [queryText, fragmentText]
  rw [htext, unslashed_append (unslashed_concat (by decide) _)]
  simp [queryText, fragmentText]

theorem unslashed_chars_of_path (hf : u.fragment = none) (hq : u.query = none) :
    unslashed u.chars = frontText u host ++
      (unslashed u.path ++ (queryText none ++ fragmentText none)) := by
  rw [chars_eq h, hf, hq, unslashed_append (unslashed_frontText h)]
  simp [queryText, fragmentText]

end

/-! ## The URL that is read again -/

/-- The URL without the slashes at the end of its text. They end its fragment, without a
fragment its query, and only without both its path. -/
def trimmed (u : Url) : Url :=
  match u.fragment, u.query with
  | some f, _ => { u with fragment := some (unslashed f) }
  | none, some q => { u with query := some (unslashed q) }
  | none, none => { u with path := unslashedPath u.path }

theorem trimmed_of_fragment {f : List Char} (hf : u.fragment = some f) :
    u.trimmed = { u with fragment := some (unslashed f) } := by
  unfold trimmed
  rw [hf]

theorem trimmed_of_query {q : List Char} (hf : u.fragment = none) (hq : u.query = some q) :
    u.trimmed = { u with query := some (unslashed q) } := by
  unfold trimmed
  rw [hf, hq]

theorem trimmed_of_path (hf : u.fragment = none) (hq : u.query = none) :
    u.trimmed = { u with path := unslashedPath u.path } := by
  unfold trimmed
  rw [hf, hq]

/-- Both URLs name the same place to connect to, as the same user. -/
structure SamePlace (u v : Url) : Prop where
  scheme : u.scheme = v.scheme
  user : u.user = v.user
  password : u.password = v.password
  host : u.host = v.host
  port : u.port = v.port

/-- Both URLs mean the same endpoint: beside the slashes at the end of the path, nothing
differs. -/
structure SameEndpoint (u v : Url) : Prop extends SamePlace u v where
  path : unslashed u.path = unslashed v.path
  query : u.query = v.query
  fragment : u.fragment = v.fragment

theorem samePlace_trimmed (u : Url) : SamePlace u.trimmed u := by
  unfold trimmed
  split <;> exact ⟨rfl, rfl, rfl, rfl, rfl⟩

/-- The part behind the path that ends the text, if there is one. -/
def lastPart (u : Url) : Option (List Char) := u.fragment.or u.query

theorem sameEndpoint_trimmed_iff (u : Url) :
    SameEndpoint u.trimmed u ↔ ∀ part, u.lastPart = some part → part.getLast? ≠ some '/' := by
  have hsome : ∀ part : List Char, some (unslashed part) = some part ↔
      ∀ other, some part = some other → other.getLast? ≠ some '/' := by
    intro part
    rw [Option.some_inj, unslashed_eq_self_iff]
    exact ⟨fun h other heq => Option.some.inj heq ▸ h, fun h => h part rfl⟩
  unfold lastPart
  cases hf : u.fragment with
  | some f =>
    rw [Option.some_or, ← hsome, trimmed_of_fragment hf]
    refine ⟨fun h => hf ▸ h.fragment, fun heq => ?_⟩
    exact ⟨⟨rfl, rfl, rfl, rfl, rfl⟩, rfl, rfl, heq.trans hf.symm⟩
  | none =>
    rw [Option.none_or]
    cases hq : u.query with
    | some q =>
      rw [← hsome, trimmed_of_query hf hq]
      refine ⟨fun h => hq ▸ h.query, fun heq => ?_⟩
      exact ⟨⟨rfl, rfl, rfl, rfl, rfl⟩, rfl, heq.trans hq.symm, rfl⟩
    | none =>
      rw [trimmed_of_path hf hq]
      refine ⟨fun _ part hpart => (Option.some_ne_none part hpart.symm).elim, fun _ => ?_⟩
      exact ⟨⟨rfl, rfl, rfl, rfl, rfl⟩, unslashed_unslashedPath u.path, rfl, rfl⟩

theorem isTail (h : IsRead u host segs) : IsTail u.path u.query u.fragment where
  rooted := h.path.eq ▸ eq_slash_of_head? segs
  path := h.path.eq ▸ isPathChar_of_mem_segmentsText h.path.segment
  query := h.query
  fragment := h.fragment

theorem mem_of_mem_unslashed {cs : List Char} (h : c ∈ unslashed cs) : c ∈ cs :=
  Text.mem_of_mem_trimEnd h

/-- The text without its last slashes is the text of parts, from which the URL without
them is read; and that URL has the same text without its last slashes. -/
theorem exists_isTail_trimmed (h : IsRead u host segs) :
    ∃ path, IsTail path u.trimmed.query u.trimmed.fragment ∧
      pathText true path = u.trimmed.path ∧
      unslashed u.chars = frontText u host ++
        (path ++ (queryText u.trimmed.query ++ fragmentText u.trimmed.fragment)) ∧
      unslashed u.trimmed.chars = unslashed u.chars := by
  have htail := isTail h
  have hplace : ∀ path query fragment,
      IsPlace { u with path := path, query := query, fragment := fragment } host :=
    fun _ _ _ => ⟨h.place.user, h.place.password, h.place.host_eq, h.place.host, h.place.port⟩
  cases hf : u.fragment with
  | some f =>
    rw [trimmed_of_fragment hf]
    refine ⟨u.path, ⟨htail.rooted, htail.path, htail.query, ?_⟩, h.path.pathText_eq,
      unslashed_chars_of_fragment h.place hf, ?_⟩
    · rintro _ ⟨⟩ c hc
      exact htail.fragment f hf c (mem_of_mem_unslashed hc)
    · rw [unslashed_chars_of_fragment (hplace _ _ _) rfl, unslashed_unslashed,
        unslashed_chars_of_fragment h.place hf]
      rfl
  | none =>
    cases hq : u.query with
    | some q =>
      rw [trimmed_of_query hf hq]
      dsimp only
      rw [hf]
      refine ⟨u.path, ⟨htail.rooted, htail.path, ?_, by simp⟩,
        h.path.pathText_eq, unslashed_chars_of_query h.place hf hq, ?_⟩
      · rintro _ ⟨⟩ c hc
        exact htail.query q hq c (mem_of_mem_unslashed hc)
      · rw [unslashed_chars_of_query (hplace _ _ _) rfl rfl, unslashed_unslashed,
          unslashed_chars_of_query h.place hf hq]
        rfl
    | none =>
      rw [trimmed_of_path hf hq]
      dsimp only
      rw [hf, hq]
      obtain ⟨kept, hkept, heq⟩ := exists_unslashed_segmentsText h.path.segment
      have hpath : unslashed u.path = segmentsText kept := h.path.eq ▸ heq
      refine ⟨unslashed u.path, ⟨?_, ?_, by simp, by simp⟩, h.path.pathText_unslashed,
        unslashed_chars_of_path h.place hf hq, ?_⟩
      · exact hpath ▸ eq_slash_of_head? kept
      · exact hpath ▸ isPathChar_of_mem_segmentsText hkept
      · rw [unslashed_chars_of_path (hplace _ _ _) rfl rfl, unslashed_unslashedPath,
          unslashed_chars_of_path h.place hf hq]
        rfl

/-! ## The normal form -/

theorem normalized_eq {s : String} (h : ofString s = .ok u) :
    normalized s = .ok (String.ofList (unslashed u.chars)) := by
  unfold normalized
  rw [h]
  rfl

/-- The normal form of a URL over HTTP is read again, as the URL without its last slashes,
and is its own normal form. Its place is that of the URL. It means the same endpoint
unless the fragment, or without a fragment the query, ends in a slash: then that slash is
lost, too. -/
theorem the_normal_form_loses_the_last_slashes {s : String} (hread : ofString s = .ok u)
    (hhttp : u.IsHttp) :
    ∃ t v, normalized s = .ok t ∧ ofString t = .ok v ∧ normalized t = .ok t ∧
      v = u.trimmed ∧ SamePlace v u ∧
      (SameEndpoint v u ↔ ∀ part, u.lastPart = some part → part.getLast? ≠ some '/') := by
  obtain ⟨host, segs, h⟩ := exists_isRead hread hhttp
  obtain ⟨path, htail, hpath, htext, hagain⟩ := exists_isTail_trimmed h
  have hparts : u.trimmed = { u with
      path := u.trimmed.path, query := u.trimmed.query, fragment := u.trimmed.fragment } := by
    unfold trimmed
    split <;> rfl
  have hback : ofString (String.ofList (unslashed u.chars)) = .ok u.trimmed := by
    unfold ofString
    rw [String.toList_ofList, htext, ofChars_text h.place hhttp htail, hpath, ← hparts]
  refine ⟨_, u.trimmed, normalized_eq hread, hback, ?_, rfl, samePlace_trimmed u,
    sameEndpoint_trimmed_iff u⟩
  rw [normalized_eq hback, hagain]

/-- An endpoint with a login, a port and slashes at the end of its path. -/
def rooted : Url :=
  ⟨"https".toList, "me".toList, "pw".toList, some "node".toList, some 8545, "/v3//".toList, none,
    none⟩

theorem ofString_rooted : ofString "https://me:pw@NODE:8545/v3//" = .ok rooted := by
  decide +kernel

theorem slashes_behind_a_path_do_no_harm :
    ∃ t v, normalized "https://me:pw@NODE:8545/v3//" = .ok t ∧ ofString t = .ok v ∧
      normalized t = .ok t ∧ SameEndpoint v rooted := by
  obtain ⟨t, v, ht, hv, hfixed, -, -, hsame⟩ :=
    the_normal_form_loses_the_last_slashes ofString_rooted (.inr rfl)
  refine ⟨t, v, ht, hv, hfixed, hsame.mpr fun part hpart => ?_⟩
  cases hpart

/-- An endpoint with a key in its query. -/
def keyed (key : String) : Url :=
  ⟨"http".toList, [], [], some "node".toList, none, ['/'], some ("key=" ++ key).toList, none⟩

/-- A key that ends in a slash does not reach the node as it is. -/
theorem a_key_in_a_query_loses_its_last_slash :
    ofString "http://node/?key=abc/" = .ok (keyed "abc/") ∧ (keyed "abc/").IsHttp ∧
      normalized "http://node/?key=abc/" = .ok "http://node/?key=abc" ∧
      ofString "http://node/?key=abc" = .ok (keyed "abc") ∧
      ¬ SameEndpoint (keyed "abc") (keyed "abc/") := by
  have hread : ofString "http://node/?key=abc/" = .ok (keyed "abc/") := by decide +kernel
  have htext : unslashed (keyed "abc/").chars = "http://node/?key=abc".toList := by
    decide +kernel
  refine ⟨hread, .inl rfl, ?_, by decide +kernel, fun hsame => ?_⟩
  · rw [normalized_eq hread, htext, String.ofList_toList]
  · exact absurd hsame.query (by decide +kernel)

end ChainAccess.Url
