import ChainAccess.Network.Directory
import ChainAccess.Proofs.Network.Settings
import ChainAccess.Proofs.Network.Startup
import ChainAccess.Proofs.Text.Utf8
import Mathlib.Data.List.TakeWhile
import Mathlib.Tactic.Common
-- Which networks a directory gives. Every JSON file that holds a usable network gives it
-- under the name without the extension, and nothing else counts. Two names that differ in
-- the case of the extension are one without it: then the file listed last has its way, so
-- the order of the listing shows, and the network of the other is lost.

namespace ChainAccess

/-! ## Names -/

namespace Text

theorem lowerChar_eq_singleton {c : Char} (hkelvin : c ≠ '\u212a') (hdotted : c ≠ '\u0130') :
    lowerChar c = [c.toLower] := by
  unfold lowerChar
  rw [if_neg hkelvin, if_neg hdotted]

/-- Where no letter becomes a `k` or an `i`, each stays one letter. -/
theorem lower_eq_map {cs : List Char} (hk : 'k' ∉ lower cs) (hi : 'i' ∉ lower cs) :
    lower cs = cs.map Char.toLower := by
  induction cs with
  | nil => rfl
  | cons c rest ih =>
    have hsplit : lower (c :: rest) = lowerChar c ++ lower rest := rfl
    rw [hsplit, List.mem_append, not_or] at hk hi
    have hkelvin : c ≠ '\u212a' := by
      rintro rfl
      exact hk.1 (by decide)
    have hdotted : c ≠ '\u0130' := by
      rintro rfl
      exact hi.1 (by decide)
    rw [hsplit, lowerChar_eq_singleton hkelvin hdotted, ih hk.2 hi.2]
    rfl

end Text

namespace Path

/-- A text that can be the name of an entry of a directory. -/
structure IsEntryName (name : String) : Prop where
  ne_empty : name ≠ ""
  ne_here : name ≠ "."
  ne_up : name ≠ ".."
  no_slash : '/' ∉ name.toList

variable {name stem ext : String}

theorem fileName?_of_entryName (h : IsEntryName name) : fileName? name = some name := by
  have hsplit : name.toList.splitOnP (· = '/') = [name.toList] := by
    apply List.splitOnP_eq_singleton
    intro c hc
    have hne : c ≠ '/' := fun heq => h.no_slash (heq ▸ hc)
    simp [hne]
  have hcomponents : components name = [name] := by
    unfold components
    rw [hsplit]
    simp [h.ne_empty, h.ne_here]
  unfold fileName?
  rw [hcomponents]
  simp [h.ne_up]

theorem splitName_of_point (hext : '.' ∉ ext.toList) :
    splitName (stem ++ "." ++ ext) =
      if stem = "" then (stem ++ "." ++ ext, none) else (stem, some ext) := by
  have hchars : (stem ++ "." ++ ext).toList = stem.toList ++ '.' :: ext.toList := by simp
  have hall : ∀ c ∈ ext.toList.reverse, (decide (c ≠ '.')) = true := by
    intro c hc
    have hne : c ≠ '.' := fun heq => hext (heq ▸ List.mem_reverse.mp hc)
    exact decide_eq_true hne
  -- from the back, everything up to the last point is the extension
  have hbehind : ((stem.toList ++ '.' :: ext.toList).reverse.takeWhile (· ≠ '.')).reverse =
      ext.toList := by
    rw [List.reverse_append, List.reverse_cons, List.append_assoc,
      List.takeWhile_append_of_pos hall]
    simp
  have hlength : (stem.toList ++ '.' :: ext.toList).length - ext.toList.length - 1 =
      stem.toList.length := by
    rw [List.length_append, List.length_cons]
    omega
  unfold splitName
  dsimp only
  rw [hchars, hbehind, hlength, List.take_left]
  by_cases hstem : stem = ""
  · subst hstem
    simp
  · have hnonempty : stem.toList.isEmpty = false := by simpa using hstem
    have hshorter : ¬ ext.toList.length = stem.toList.length + (ext.toList.length + 1) := by omega
    simp only [List.length_append, List.length_cons, hshorter, hnonempty, hstem, if_false,
      decide_false, Bool.or_self, Bool.false_eq_true, String.ofList_toList]

theorem splitName_of_no_point (h : '.' ∉ name.toList) : splitName name = (name, none) := by
  have hall : ∀ c ∈ name.toList.reverse, (decide (c ≠ '.')) = true := by
    intro c hc
    have hne : c ≠ '.' := fun heq => h (heq ▸ List.mem_reverse.mp hc)
    exact decide_eq_true hne
  have hwhole : (name.toList.reverse.takeWhile (· ≠ '.')).reverse = name.toList := by
    rw [List.takeWhile_eq_self_iff.mpr hall, List.reverse_reverse]
  unfold splitName
  dsimp only
  rw [hwhole]
  simp

/-- A name has an extension behind its last point, unless that stands at the front. -/
theorem splitName_eq_some_iff :
    splitName name = (stem, some ext) ↔
      name = stem ++ "." ++ ext ∧ stem ≠ "" ∧ '.' ∉ ext.toList := by
  constructor
  · intro h
    by_cases hpoint : '.' ∈ name.toList
    · obtain ⟨front, back, hname, hback⟩ := List.eq_append_cons_of_mem (List.mem_reverse.mpr hpoint)
      have hchars : name = String.ofList back.reverse ++ "." ++ String.ofList front.reverse := by
        rw [← String.toList_inj]
        have := congrArg List.reverse hname
        simpa using this
      have hext : '.' ∉ (String.ofList front.reverse).toList := by simpa using hback
      rw [hchars, splitName_of_point hext] at h
      by_cases hstem : String.ofList back.reverse = ""
      · rw [if_pos hstem] at h
        cases h
      · rw [if_neg hstem] at h
        cases h
        exact ⟨hchars, hstem, hext⟩
    · rw [splitName_of_no_point hpoint] at h
      cases h
  · rintro ⟨rfl, hstem, hext⟩
    rw [splitName_of_point hext, if_neg hstem]

/-- The letters `json` in any case. -/
def IsJsonExtension (ext : String) : Prop := ext.toList.map Char.toLower = "json".toList

theorem isJsonExtension_iff : IsJsonExtension ext ↔ Text.lower ext.toList = "json".toList := by
  constructor
  · intro h
    rw [← h]
    -- each letter of `json` comes from one letter
    have hsingle : ∀ c ∈ ext.toList, Text.lowerChar c = [c.toLower] := by
      intro c hc
      have hletter : c.toLower ∈ "json".toList := h ▸ List.mem_map_of_mem hc
      apply Text.lowerChar_eq_singleton <;> rintro rfl <;> exact absurd hletter (by decide)
    unfold Text.lower
    rw [List.flatMap_congr hsingle, ← List.map_eq_flatMap]
  · intro h
    rw [IsJsonExtension, ← h, Text.lower_eq_map] <;> rw [h] <;> decide

theorem isJson_of_extension (hext : IsJsonExtension ext) (hstem : stem ≠ "")
    (hname : IsEntryName (stem ++ "." ++ ext)) :
    isJson (stem ++ "." ++ ext) = true ∧ stem? (stem ++ "." ++ ext) = some stem := by
  have hpoint : '.' ∉ ext.toList := by
    intro hmem
    have hletter : Char.toLower '.' ∈ "json".toList := hext ▸ List.mem_map_of_mem hmem
    exact absurd hletter (by decide)
  have hsplit : splitName (stem ++ "." ++ ext) = (stem, some ext) :=
    splitName_eq_some_iff.mpr ⟨rfl, hstem, hpoint⟩
  unfold isJson extension? stem?
  rw [fileName?_of_entryName hname, Option.bind_some, Option.map_some, hsplit]
  exact ⟨by simpa using isJsonExtension_iff.mp hext, rfl⟩

theorem exists_extension_of_isJson (hname : IsEntryName name) (h : isJson name = true) :
    ∃ stem ext, name = stem ++ "." ++ ext ∧ stem ≠ "" ∧ IsJsonExtension ext := by
  unfold isJson extension? at h
  rw [fileName?_of_entryName hname, Option.bind_some] at h
  rcases hsplit : splitName name with ⟨stem, _ | ext⟩
  · rw [hsplit] at h
    cases h
  · rw [hsplit] at h
    obtain ⟨heq, hstem, -⟩ := splitName_eq_some_iff.mp hsplit
    exact ⟨stem, ext, heq, hstem, isJsonExtension_iff.mpr (by simpa using h)⟩

end Path

namespace Network

/-! ## Entries -/

/-- The entry is a JSON file with a usable network, which it gives under its name without
the extension. -/
def Gives (e : String × FileTree) (stem : String) (n : Network) : Prop :=
  ∃ ext content, e = (stem ++ "." ++ ext, .file content) ∧ stem ≠ "" ∧
    Path.IsJsonExtension ext ∧ ofContent content = .ok n

variable {e : String × FileTree} {stem name : String} {n m : Network}

theorem ofEntry_eq_some_iff (hname : Path.IsEntryName e.1) :
    ofEntry e = some (stem, n) ↔ Gives e stem n := by
  obtain ⟨name, t⟩ := e
  constructor
  · intro h
    by_cases hjson : Path.isJson name = true
    · obtain ⟨stem', ext, rfl, hstem, hext⟩ := Path.exists_extension_of_isJson hname hjson
      obtain ⟨-, hstem?⟩ := Path.isJson_of_extension hext hstem hname
      simp only [ofEntry, hjson, if_true, hstem?, Option.getD_some] at h
      cases t with
      | file content =>
        rcases hread : ofContent content with e | m
        · simp [ofFile, hread, Except.toOption] at h
        · simp only [ofFile, hread, Except.toOption, Option.map_some, Option.some.injEq,
            Prod.mk.injEq] at h
          obtain ⟨rfl, rfl⟩ := h
          exact ⟨ext, content, rfl, hstem, hext, hread⟩
      | sealed => simp [ofFile, Except.toOption] at h
      | dir entries => simp [ofFile, Except.toOption] at h
    · simp [ofEntry, hjson] at h
  · rintro ⟨ext, content, heq, hstem, hext, hread⟩
    cases heq
    obtain ⟨hjson, hstem?⟩ := Path.isJson_of_extension hext hstem hname
    simp [ofEntry, hjson, hstem?, ofFile, hread, Except.toOption]

/-! ## Maps -/

/-- The network under a name. -/
def under (name : String) (found : List (String × Network)) : Option Network :=
  (found.find? (·.1 == name)).map (·.2)

theorem under_append (found more : List (String × Network)) :
    under name (found ++ more) = (under name found).or (under name more) := by
  unfold under
  rw [List.find?_append, Option.map_or]

theorem under_single (k : String) : under name [(k, n)] = if k = name then some n else none := by
  by_cases hk : k = name <;> simp [under, hk]

theorem under_eq_some_of_mem {found : List (String × Network)} (h : under name found = some n) :
    (name, n) ∈ found := by
  obtain ⟨⟨k, m⟩, hfind, rfl⟩ := Option.map_eq_some_iff.mp h
  have hk : k = name := by simpa using List.find?_some hfind
  exact hk ▸ List.mem_of_find?_eq_some hfind

theorem isSome_under_of_mem {found : List (String × Network)} (h : (name, n) ∈ found) :
    (under name found).isSome := by
  unfold under
  rw [Option.isSome_map, List.find?_isSome]
  exact ⟨(name, n), h, by simp⟩

theorem under_filter_ne (k : String) (found : List (String × Network)) :
    under name (found.filter (·.1 != k)) = if k = name then none else under name found := by
  unfold under
  rw [List.find?_filter]
  by_cases hk : k = name
  · rw [if_pos hk, Option.map_eq_none_iff, List.find?_eq_none]
    intro x _
    simp [hk]
  · have hsame : (fun x : String × Network =>
        decide ((x.1 != k) = true ∧ (x.1 == name) = true)) = (·.1 == name) := by
      funext x
      by_cases hx : x.1 = name <;> simp [hx, Ne.symm hk]
    rw [if_neg hk, hsame]

theorem under_collect (found : List (String × Network)) (x : String × Network) :
    under name (collect found x) = if x.1 = name then some x.2 else under name found := by
  unfold collect
  rw [under_append, under_filter_ne, under_single]
  by_cases hx : x.1 = name <;> simp [hx]

/-- What is collected last under a name stands there. -/
theorem under_foldl_collect (xs found : List (String × Network)) :
    under name (xs.foldl collect found) = (under name xs.reverse).or (under name found) := by
  induction xs generalizing found with
  | nil => rfl
  | cons x rest ih =>
    rw [List.foldl_cons, ih, under_collect, List.reverse_cons, under_append, under_single,
      Option.or_assoc]
    by_cases hx : x.1 = name <;> simp [hx]

theorem nodup_foldl_collect (xs : List (String × Network)) {found : List (String × Network)}
    (h : (found.map (·.1)).Nodup) : ((xs.foldl collect found).map (·.1)).Nodup := by
  induction xs generalizing found with
  | nil => exact h
  | cons x rest ih =>
    apply ih
    unfold collect
    rw [List.map_append, List.nodup_append]
    refine ⟨h.sublist (List.filter_sublist.map _), List.nodup_singleton _, ?_⟩
    rintro k hk _ hx rfl
    obtain ⟨y, hy, rfl⟩ := List.mem_map.mp hk
    have hne : y.1 ≠ x.1 := by simpa using (List.mem_filter.mp hy).2
    exact hne (by simpa using hx)

/-! ## Directories -/

/-- What a directory lists, in its order. -/
structure Listing where
  entries : List (String × FileTree)
  named : ∀ e ∈ entries, Path.IsEntryName e.1
  nodup : (entries.map (·.1)).Nodup

namespace Listing

variable {l l' : Listing}

/-- The networks of the directory. -/
def load (l : Listing) : Except ConfigError (List (String × Network)) :=
  ofDirectory (some (.dir l.entries))

/-- What the entries of the directory give, in their order. -/
def given (l : Listing) : List (String × Network) := l.entries.filterMap ofEntry

theorem mem_given_iff : (stem, n) ∈ l.given ↔ ∃ e ∈ l.entries, Gives e stem n := by
  unfold given
  rw [List.mem_filterMap]
  constructor
  · rintro ⟨e, he, hgives⟩
    exact ⟨e, he, (ofEntry_eq_some_iff (l.named e he)).mp hgives⟩
  · rintro ⟨e, he, hgives⟩
    exact ⟨e, he, (ofEntry_eq_some_iff (l.named e he)).mpr hgives⟩

theorem load_eq (l : Listing) : l.load = .ok (l.given.foldl collect []) := rfl

theorem under_loaded (l : Listing) :
    under stem (l.given.foldl collect []) = under stem l.given.reverse := by
  rw [under_foldl_collect]
  exact Option.or_none

/-- The directory lists the same entries in this order. -/
def reordered (l : Listing) (entries : List (String × FileTree)) (h : entries.Perm l.entries) :
    Listing where
  entries := entries
  named e he := l.named e (h.mem_iff.mp he)
  nodup := (h.map _).nodup_iff.mpr l.nodup

/-- No two files give different networks under one name. -/
def Clashless (l : Listing) : Prop :=
  ∀ stem n m, (∃ e ∈ l.entries, Gives e stem n) → (∃ e ∈ l.entries, Gives e stem m) → n = m

/-- What comes of a directory. -/
structure Loads (l : Listing) (found : List (String × Network)) : Prop where
  loaded : l.load = .ok found
  nodup : (found.map (·.1)).Nodup
  sound : ∀ stem n, under stem found = some n → ∃ e ∈ l.entries, Gives e stem n
  complete : ∀ stem n, (∃ e ∈ l.entries, Gives e stem n) → (under stem found).isSome
  /-- Of the files that give a network under one name, the one listed last has its way. -/
  last : ∀ before e after stem n, l.entries = before ++ e :: after → Gives e stem n →
    (∀ e' ∈ after, ∀ m, ¬ Gives e' stem m) → under stem found = some n
  /-- A file that gives no network changes nothing. -/
  unmoved : ∀ kept : String × FileTree → Bool,
    (∀ e ∈ l.entries, ∀ stem n, Gives e stem n → kept e = true) →
    ofDirectory (some (.dir (l.entries.filter kept))) = .ok found
  lossless_iff : l.Clashless ↔
    ∀ stem n, (∃ e ∈ l.entries, Gives e stem n) → under stem found = some n
  orderless_iff : l.Clashless ↔
    ∀ l' : Listing, l'.entries.Perm l.entries →
      ∃ found', l'.load = .ok found' ∧ ∀ stem, under stem found' = under stem found

/-- The networks of the directory when each takes the place of an earlier one of its name. -/
def collected (l : Listing) : List (String × Network) := l.given.foldl collect []

theorem sound_collected (h : under stem l.collected = some n) :
    ∃ e ∈ l.entries, Gives e stem n := by
  rw [collected, under_loaded] at h
  exact mem_given_iff.mp (List.mem_reverse.mp (under_eq_some_of_mem h))

theorem complete_collected (h : ∃ e ∈ l.entries, Gives e stem n) :
    (under stem l.collected).isSome := by
  rw [collected, under_loaded]
  exact isSome_under_of_mem (List.mem_reverse.mpr (mem_given_iff.mpr h))

theorem last_collected {before after : List (String × FileTree)}
    (hsplit : l.entries = before ++ e :: after) (hgives : Gives e stem n)
    (hafter : ∀ e' ∈ after, ∀ m, ¬ Gives e' stem m) : under stem l.collected = some n := by
  have hnamed : ∀ e' ∈ before ++ e :: after, Path.IsEntryName e'.1 := hsplit ▸ l.named
  have hnone : under stem (after.filterMap ofEntry).reverse = none := by
    by_contra hsome
    obtain ⟨m, hm⟩ := Option.ne_none_iff_exists'.mp hsome
    obtain ⟨e', he', heq⟩ :=
      List.mem_filterMap.mp (List.mem_reverse.mp (under_eq_some_of_mem hm))
    exact hafter e' he' m ((ofEntry_eq_some_iff (hnamed e' (by simp [he']))).mp heq)
  have hentry : ofEntry e = some (stem, n) := (ofEntry_eq_some_iff (hnamed e (by simp))).mpr hgives
  rw [collected, under_loaded, given, hsplit, List.filterMap_append,
    List.filterMap_cons_some hentry, List.reverse_append, List.reverse_cons, under_append,
    under_append, hnone, under_single, if_pos rfl]
  rfl

theorem unmoved_collected {kept : String × FileTree → Bool}
    (hkept : ∀ e ∈ l.entries, ∀ stem n, Gives e stem n → kept e = true) :
    ofDirectory (some (.dir (l.entries.filter kept))) = .ok l.collected := by
  have hgiven : (l.entries.filter kept).filterMap ofEntry = l.given := by
    rw [List.filterMap_filter]
    apply List.filterMap_congr
    intro e he
    by_cases hk : kept e = true
    · rw [if_pos hk]
    · rw [if_neg hk]
      by_contra hne
      obtain ⟨⟨stem, n⟩, hentry⟩ := Option.ne_none_iff_exists'.mp (Ne.symm hne)
      exact hk (hkept e he stem n ((ofEntry_eq_some_iff (l.named e he)).mp hentry))
  rw [ofDirectory, hgiven]
  rfl

theorem Clashless.under_iff (h : l.Clashless) :
    under stem l.collected = some n ↔ ∃ e ∈ l.entries, Gives e stem n := by
  refine ⟨sound_collected, fun hgives => ?_⟩
  obtain ⟨m, hm⟩ := Option.isSome_iff_exists.mp (complete_collected hgives)
  rw [hm, h stem n m hgives (sound_collected hm)]

theorem Clashless.of_perm (hperm : l'.entries.Perm l.entries) (h : l.Clashless) :
    l'.Clashless := by
  rintro stem n m ⟨e, he, hn⟩ ⟨e', he', hm⟩
  exact h stem n m ⟨e, hperm.mem_iff.mp he, hn⟩ ⟨e', hperm.mem_iff.mp he', hm⟩

/-- Some order of the directory lists the file last. -/
theorem exists_listed_last (he : e ∈ l.entries) (hgives : Gives e stem n) :
    ∃ l' : Listing, l'.entries.Perm l.entries ∧ under stem l'.collected = some n := by
  obtain ⟨before, after, hsplit⟩ := List.append_of_mem he
  have hperm : (before ++ after ++ [e]).Perm l.entries := by
    rw [hsplit, List.append_assoc]
    exact (List.perm_append_singleton e after).append_left before
  have hlast : (l.reordered _ hperm).entries = (before ++ after) ++ e :: [] := rfl
  exact ⟨l.reordered _ hperm, hperm, last_collected hlast hgives (by simp)⟩

theorem clashless_iff_lossless :
    l.Clashless ↔ ∀ stem n, (∃ e ∈ l.entries, Gives e stem n) →
      under stem l.collected = some n := by
  constructor
  · intro h stem n hgives
    exact h.under_iff.mpr hgives
  · intro h stem n m hn hm
    exact Option.some.inj ((h stem n hn).symm.trans (h stem m hm))

theorem clashless_iff_orderless :
    l.Clashless ↔ ∀ l' : Listing, l'.entries.Perm l.entries →
      ∃ found', l'.load = .ok found' ∧ ∀ stem, under stem found' = under stem l.collected := by
  constructor
  · intro h l' hperm
    refine ⟨l'.collected, l'.load_eq, fun stem => Option.ext fun n => ?_⟩
    rw [(h.of_perm hperm).under_iff, h.under_iff]
    simp only [hperm.mem_iff]
  · rintro h stem n m ⟨e, he, hn⟩ ⟨e', he', hm⟩
    -- each of the two has its way in an order that lists it last
    obtain ⟨l₁, hperm₁, hunder₁⟩ := exists_listed_last he hn
    obtain ⟨l₂, hperm₂, hunder₂⟩ := exists_listed_last he' hm
    obtain ⟨_, hload₁, hsame₁⟩ := h l₁ hperm₁
    obtain ⟨_, hload₂, hsame₂⟩ := h l₂ hperm₂
    cases hload₁
    cases hload₂
    exact Option.some.inj (hunder₁.symm.trans ((hsame₁ stem).trans
      ((hsame₂ stem).symm.trans hunder₂)))

/-- A directory always gives the networks of its JSON files under their names without the
extension, whatever else lies in it. It loses none, and gives the same in whatever order
it is listed, exactly when no two of its files give different networks under one name;
of such files the one listed last has its way. -/
theorem a_directory_loses_only_what_clashes (l : Listing) : ∃ found, l.Loads found :=
  ⟨l.collected, {
    loaded := l.load_eq
    nodup := nodup_foldl_collect _ List.nodup_nil
    sound := fun _ _ => sound_collected
    complete := fun _ _ => complete_collected
    last := fun _ _ _ _ _ => last_collected
    unmoved := fun _ => unmoved_collected
    lossless_iff := clashless_iff_lossless
    orderless_iff := clashless_iff_orderless }⟩

end Listing

/-! ## Two files of one name -/

/-- A file with the settings of a network. -/
def fileOf (n : Network) : FileTree := .file (Utf8.encode n.toJson.compact)

/-- Usable settings come back from a file. -/
theorem ofContent_settings (hgas : n.gas.ZeroUnsigned) (hvalid : n.validate = .ok ()) :
    ofContent (Utf8.encode n.toJson.compact) = .ok n := by
  have hread : (Json.readBytes (Utf8.encode n.toJson.compact)).as read = .ok n := by
    have hback : Json.readBytes (Utf8.encode n.toJson.compact) = ⟨n.toJson, true⟩ :=
      Json.read_compact n.nests_toJson (by decide)
    rw [hback]
    exact (Json.Document.as_clean _).trans (read_toJson hgas)
  unfold ofContent
  rw [hread]
  show (n.validate.mapError ConfigError.validation >>= fun _ => .ok n) = .ok n
  rw [hvalid]
  rfl

/-- A network of one endpoint. -/
def lone (name : String) : Network :=
  ⟨"main", name, 1, [⟨"rpc", "http://a", 100⟩], .default, .default, defaultTimeout⟩

theorem validate_lone (name : String) : (lone name).validate = .ok () := by
  refine validate_eq_ok_iff.mpr fun flaw => ?_
  cases flaw with
  | slug =>
    show ("main".isEmpty || !"main".toList.all isSlugChar) = false
    decide
  | urlScheme => simp [lone, has]
  | noUsableUrl => simp [lone, has, usableUrls, RpcUrl.isUsable]
  | _ => rfl

theorem gives_lone (stem ext name : String) (hstem : stem ≠ "")
    (hext : Path.IsJsonExtension ext) :
    Gives (stem ++ "." ++ ext, fileOf (lone name)) stem (lone name) :=
  ⟨ext, _, rfl, hstem, hext,
    ofContent_settings Gas.Policy.zeroUnsigned_default (validate_lone name)⟩

/-- Two files whose names differ in the case of the extension hold different usable
networks; of the two the directory gives the one that it happens to list last. -/
theorem a_network_gives_way_to_another_of_its_name :
    Gives ("a.json", fileOf (lone "A")) "a" (lone "A") ∧
    Gives ("a.JSON", fileOf (lone "B")) "a" (lone "B") ∧ lone "A" ≠ lone "B" ∧
    ofDirectory (some (.dir [("a.json", fileOf (lone "A")), ("a.JSON", fileOf (lone "B"))])) =
      .ok [("a", lone "B")] ∧
    ofDirectory (some (.dir [("a.JSON", fileOf (lone "B")), ("a.json", fileOf (lone "A"))])) =
      .ok [("a", lone "A")] := by
  have hfirst : Gives ("a.json", fileOf (lone "A")) "a" (lone "A") :=
    gives_lone "a" "json" "A" (by decide) rfl
  have hsecond : Gives ("a.JSON", fileOf (lone "B")) "a" (lone "B") :=
    gives_lone "a" "JSON" "B" (by decide) rfl
  have hentry : ofEntry ("a.json", fileOf (lone "A")) = some ("a", lone "A") :=
    (ofEntry_eq_some_iff ⟨by decide, by decide, by decide, by decide⟩).mpr hfirst
  have hentry' : ofEntry ("a.JSON", fileOf (lone "B")) = some ("a", lone "B") :=
    (ofEntry_eq_some_iff ⟨by decide, by decide, by decide, by decide⟩).mpr hsecond
  refine ⟨hfirst, hsecond, by decide, ?_, ?_⟩
  · simp [ofDirectory, hentry, hentry', collect]
  · simp [ofDirectory, hentry, hentry', collect]

end Network

end ChainAccess
