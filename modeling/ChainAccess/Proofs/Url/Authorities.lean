import ChainAccess.Proofs.Url.Addresses
import ChainAccess.Proofs.Url.Paths
import Mathlib.Data.List.Basic
import Mathlib.Tactic.Common
-- Authorities of web URLs. The login, the host and the port that have been read are read
-- back from the text that is written for them, whatever path follows.

namespace ChainAccess.Url

open Host

variable {c d : Char} {cs place host path scheme : List Char}

/-! ## Characters in front of a path -/

/-- What stands between the slashes before a host and its path, but for the mark behind a
login. -/
def isPlaceChar (c : Char) : Bool := 0x20 < c.toNat && !"/\\?#@".toList.contains c

theorem isPlaceChar_iff : isPlaceChar c = true ↔
    0x20 < c.toNat ∧ c ≠ '/' ∧ c ≠ '\\' ∧ c ≠ '?' ∧ c ≠ '#' ∧ c ≠ '@' := by
  have hmarks : "/\\?#@".toList = ['/', '\\', '?', '#', '@'] := rfl
  simp [isPlaceChar, hmarks]

theorem ne_of_isPlaceChar (h : isPlaceChar c = true) (hd : isPlaceChar d = false) : c ≠ d := by
  rintro rfl
  rw [h] at hd
  cases hd

theorem isSlash_of_isPlaceChar (h : isPlaceChar c = true) : isSlash true c = false := by
  obtain ⟨-, hslash, hback, -⟩ := isPlaceChar_iff.mp h
  simp [isSlash, hslash, hback]

theorem isPlaceChar_of_isUserChar (h : isUserChar c = true) : isPlaceChar c = true :=
  isPlaceChar_iff.mpr ⟨lt_of_printableBut h (by decide), ne_of_printableBut h (by decide),
    ne_of_printableBut h (by decide), ne_of_printableBut h (by decide),
    ne_of_printableBut h (by decide), ne_of_printableBut h (by decide)⟩

theorem isPlaceChar_of_accepted (h : isRefusedInName c = false) : isPlaceChar c = true := by
  have hne : ∀ {d : Char}, isRefusedInName d = true → c ≠ d := by
    rintro d hd rfl
    rw [h] at hd
    cases hd
  have hvisible : ¬ c.toNat < 0x20 := by
    intro hlt
    simp [isRefusedInName, hlt] at h
  have hblank : c.toNat ≠ 0x20 := by
    intro heq
    exact hne (d := ' ') (by decide) (by rw [← Char.ofNat_toNat c, heq])
  exact isPlaceChar_iff.mpr ⟨by omega, hne (by decide), hne (by decide), hne (by decide),
    hne (by decide), hne (by decide)⟩

theorem isPlaceChar_digitChar : ∀ d < 16, isPlaceChar d.digitChar = true := by decide

theorem isPlaceChar_of_mem_host (h : IsHost host) (hc : c ∈ host) : isPlaceChar c = true := by
  cases h with
  | name h hword => exact isPlaceChar_of_accepted (h.accepted c hc)
  | numbers h => exact isPlaceChar_of_accepted ((isName_dotted _).accepted c hc)
  | groups h hlength =>
    obtain ⟨inner, hinner, -, hchars⟩ := exists_bracketed h hlength
    rw [hinner, List.mem_append, List.mem_cons, List.mem_singleton] at hc
    rcases hc with (rfl | hmem) | rfl
    · decide
    · rcases hchars c hmem with rfl | ⟨d, hd, rfl⟩
      · decide
      · exact isPlaceChar_digitChar d hd
    · decide

theorem Host.IsHost.ne_nil (h : IsHost host) : host ≠ [] := by
  cases h with
  | name h hword => exact h.ne_nil
  | numbers h => exact (isName_dotted _).ne_nil
  | groups h hlength =>
    obtain ⟨inner, hinner, -⟩ := exists_bracketed h hlength
    rw [hinner]
    exact List.cons_ne_nil _ _

/-! ## Ports -/

/-- The text of a port behind its host. -/
def portText : Option Nat → List Char
  | some p => ':' :: (toString p).toList
  | none => []

/-- A port that is written: not the one that the scheme means anyway. -/
structure IsPort (scheme : List Char) (p : Nat) : Prop where
  le : p ≤ 65535
  ne_default : defaultPort scheme ≠ some p

theorem isPort_of_readPort {digits : Option (List Char)} {port : Option Nat}
    (h : readPort scheme digits = .ok port) : ∀ p, port = some p → IsPort scheme p := by
  rintro p rfl
  unfold readPort at h
  split at h
  · cases h
  · cases h
  · split at h
    · cases h
    · dsimp only at h
      split at h
      · cases h
      · next hle =>
        have hport := Except.ok.inj h
        split at hport
        · cases hport
        · next hdefault =>
          obtain rfl := Option.some.inj hport
          exact ⟨Nat.le_of_not_lt hle, hdefault⟩

theorem readPort_toDigits {p : Nat} (h : IsPort scheme p) :
    readPort scheme (some (Nat.toDigits 10 p)) = .ok (some p) := by
  have hdigits : (Nat.toDigits 10 p).all Char.isDigit = true :=
    List.all_eq_true.mpr fun c hc => Nat.isDigit_of_mem_toDigits (by decide) (by decide) hc
  have hvalue : (Nat.toDigits 10 p).foldl (fun n c => 10 * n + (c.toNat - 48)) 0 = p :=
    (Nat.ofDigitChars_eq_foldl).symm.trans Nat.ofDigitChars_ten_toDigits
  unfold readPort
  split
  · next heq => cases heq
  · next heq => exact absurd (Option.some.inj heq) Nat.toDigits_ne_nil
  · next ds _ heq =>
    obtain rfl := Option.some.inj heq
    rw [hdigits, hvalue]
    dsimp only
    rw [if_neg (by decide), if_neg (Nat.not_lt.mpr h.le), if_neg h.ne_default]

theorem splitPort_append {l : List Char} (h : ∀ c ∈ l, c ≠ ':' ∧ c ≠ '[' ∧ c ≠ ']')
    (cs : List Char) :
    splitPort false (l ++ cs) = (l ++ (splitPort false cs).1, (splitPort false cs).2) := by
  induction l with
  | nil => rfl
  | cons c rest ih =>
    obtain ⟨⟨hcolon, hopen, hclose⟩, hrest⟩ := List.forall_mem_cons.mp h
    rw [List.cons_append, splitPort]
    simp [hcolon, hopen, hclose, ih hrest]

theorem splitPort_inside {l : List Char} (h : ∀ c ∈ l, c ≠ ']') (cs : List Char) :
    splitPort true (l ++ ']' :: cs) =
      (l ++ ']' :: (splitPort false cs).1, (splitPort false cs).2) := by
  induction l with
  | nil => rw [List.nil_append, splitPort]; simp
  | cons c rest ih =>
    obtain ⟨hclose, hrest⟩ := List.forall_mem_cons.mp h
    rw [List.cons_append, splitPort]
    simp [hclose, ih hrest]

theorem Host.IsName.splitPort_append {name : List Char} {labels : List (List Char)}
    (h : IsName name labels) (cs : List Char) :
    splitPort false (name ++ cs) = (name ++ (splitPort false cs).1, (splitPort false cs).2) :=
  Url.splitPort_append (fun _ hc => ⟨h.ne_of_refused hc (by decide),
    h.ne_of_refused hc (by decide), h.ne_of_refused hc (by decide)⟩) cs

theorem Host.IsHost.splitPort_append (h : IsHost host) (cs : List Char) :
    splitPort false (host ++ cs) = (host ++ (splitPort false cs).1, (splitPort false cs).2) := by
  cases h with
  | name h hword => exact h.splitPort_append cs
  | numbers h => exact (isName_dotted _).splitPort_append cs
  | groups h hlength =>
    obtain ⟨inner, hinner, -, hchars⟩ := exists_bracketed h hlength
    have hclose : ∀ c ∈ inner, c ≠ ']' := by
      intro c hc
      rcases hchars c hc with rfl | ⟨d, hd, rfl⟩
      · decide
      · have hall : ∀ d < 16, d.digitChar ≠ ']' := by decide
        exact hall d hd
    rw [hinner, List.append_assoc, List.cons_append, splitPort, List.singleton_append]
    simp [splitPort_inside hclose]

theorem splitPort_host (h : IsHost host) (port : Option Nat) :
    splitPort false (host ++ portText port) = (host, port.map (Nat.toDigits 10)) := by
  rw [h.splitPort_append]
  cases port with
  | none => simp [portText, splitPort]
  | some p =>
    simp [portText, splitPort]

theorem isPlaceChar_of_mem_portText {port : Option Nat} (h : c ∈ portText port) :
    isPlaceChar c = true := by
  cases port with
  | none => cases h
  | some p =>
    rcases List.mem_cons.mp h with rfl | hdigit
    · decide
    · have hdigits : (toString p).toList = Nat.toDigits 10 p := Nat.toList_repr
      rw [hdigits] at hdigit
      obtain ⟨d, hd, rfl⟩ := Text.exists_digitChar
        (Nat.isDigit_of_mem_toDigits (by decide) (by decide) hdigit)
      exact isPlaceChar_digitChar d (Nat.lt_trans hd (by decide))

/-! ## Logins -/

theorem takeWhile_ne_append {mark : Char} (h : mark ∉ cs) (ds : List Char) :
    (cs ++ mark :: ds).takeWhile (· ≠ mark) = cs := by
  rw [List.takeWhile_append_of_pos fun c hc => by simpa using ne_of_mem_of_not_mem hc h]
  simp

theorem dropWhile_ne_append {mark : Char} (h : mark ∉ cs) (ds : List Char) :
    (cs ++ mark :: ds).dropWhile (· ≠ mark) = mark :: ds := by
  rw [List.dropWhile_append_of_pos fun c hc => by simpa using ne_of_mem_of_not_mem hc h]
  simp

theorem takeWhile_ne_of_notMem {mark : Char} (h : mark ∉ cs) :
    cs.takeWhile (· ≠ mark) = cs :=
  List.takeWhile_eq_self_iff.mpr fun c hc => by simpa using ne_of_mem_of_not_mem hc h

theorem splitMark_append {mark : Char} (h : mark ∉ cs) (ds : List Char) :
    splitMark mark (cs ++ mark :: ds) = (cs, some ds) := by
  unfold splitMark
  rw [dropWhile_ne_append h, takeWhile_ne_append h]

theorem splitMark_of_notMem {mark : Char} (h : mark ∉ cs) : splitMark mark cs = (cs, none) := by
  have hdrop : cs.dropWhile (· ≠ mark) = [] :=
    List.dropWhile_eq_nil_iff.mpr fun c hc => by simpa using ne_of_mem_of_not_mem hc h
  unfold splitMark
  rw [hdrop]

theorem splitUser_append (login : List Char) (h : '@' ∉ place) :
    splitUser (login ++ '@' :: place) = (some login, place) := by
  have hback : (login ++ '@' :: place).reverse = place.reverse ++ '@' :: login.reverse := by simp
  have hnot : '@' ∉ place.reverse := fun hmem => h (List.mem_reverse.mp hmem)
  have hlength : (login ++ '@' :: place).length = login.length + (place.length + 1) := by simp
  have hlogin : login.length + (place.length + 1) - place.length - 1 = login.length := by omega
  unfold splitUser
  rw [hback, takeWhile_ne_append hnot]
  dsimp only
  rw [List.reverse_reverse, hlength, if_neg (by omega), hlogin, List.take_left]

theorem splitUser_of_notMem (h : '@' ∉ place) : splitUser place = (none, place) := by
  have hnot : '@' ∉ place.reverse := fun hmem => h (List.mem_reverse.mp hmem)
  unfold splitUser
  rw [takeWhile_ne_of_notMem hnot]
  dsimp only
  rw [List.reverse_reverse, if_pos rfl]

/-! ## The whole authority -/

/-- The place that a web URL names: what stands in front of its path, as it is after
reading. -/
structure IsPlace (u : Url) (host : List Char) : Prop where
  user : ∀ c ∈ u.user, isUserChar c = true
  password : ∀ c ∈ u.password, isUserChar c = true
  host_eq : u.host = some host
  host : IsHost host
  port : ∀ p, u.port = some p → IsPort u.scheme p

section

variable {query fragment : Option (List Char)} (hweb : isWeb scheme = true)
  (hfile : scheme ≠ "file".toList)
include hweb hfile

/-- How an authority is read: its login, then its host, then its port. -/
theorem readAuthority_eq {login portChars : Option (List Char)} {hostChars : List Char}
    (hlogin : splitUser (cs.takeWhile (!isSlash true ·)) = (login, place))
    (hport : splitPort false place = (hostChars, portChars)) :
    readAuthority scheme cs query fragment =
      if hostChars.isEmpty = true then .error .emptyHost
      else (ofWebChars hostChars).bind fun host => (readPort scheme portChars).map fun port =>
        { scheme := scheme
          user := percentEncode isUserChar (splitMark ':' (login.getD [])).1
          password := percentEncode isUserChar ((splitMark ':' (login.getD [])).2.getD [])
          host := some host
          port := port
          path := pathText true (cs.dropWhile (!isSlash true ·))
          query := query
          fragment := fragment } := by
  have hother : decide (scheme = "file".toList) = false := decide_eq_false hfile
  have hnamed : decide (scheme ≠ "file".toList) = true := decide_eq_true hfile
  unfold readAuthority
  rw [hweb]
  dsimp only
  rw [hlogin]
  dsimp only
  rw [hport]
  dsimp only
  rw [hother, hnamed]
  cases hostChars with
  | nil => rfl
  | cons c rest =>
    change (ofWebChars (c :: rest)).bind _ = _
    cases ofWebChars (c :: rest) with
    | error f => rfl
    | ok host => cases readPort scheme portChars <;> rfl

theorem isPlace_of_readAuthority {u : Url} (h : readAuthority scheme cs query fragment = .ok u) :
    u.scheme = scheme ∧ u.query = query ∧ u.fragment = fragment ∧
      (∃ host, IsPlace u host) ∧ ∃ segs, IsPath u.path segs := by
  rcases hlogin : splitUser (cs.takeWhile (!isSlash true ·)) with ⟨login, place⟩
  rcases hplace : splitPort false place with ⟨hostChars, portChars⟩
  rw [readAuthority_eq hweb hfile hlogin hplace] at h
  split at h
  · cases h
  · cases hhost : ofWebChars hostChars with
    | error f => rw [hhost] at h; cases h
    | ok host =>
      rw [hhost] at h
      cases hport : readPort scheme portChars with
      | error f => rw [hport] at h; cases h
      | ok port =>
        rw [hport] at h
        obtain rfl := Except.ok.inj h
        exact ⟨rfl, rfl, rfl, ⟨host, {
          user := fun c hc => holdsCodes_isUserChar.plain_of_mem hc
          password := fun c hc => holdsCodes_isUserChar.plain_of_mem hc
          host_eq := rfl
          host := isHost_of_ofWebChars hhost
          port := isPort_of_readPort hport }⟩, exists_isPath_pathText _⟩

end

/-! ## Read again -/

/-- What is written in front of a path. -/
def placeText (u : Url) (host : List Char) : List Char :=
  u.loginChars ++ (host ++ portText u.port)

theorem authorityChars_eq {u : Url} (h : IsPlace u host) :
    u.authorityChars = '/' :: '/' :: placeText u host := by
  unfold authorityChars placeText portText
  rw [h.host_eq]
  cases u.port <;> simp

theorem isPlaceChar_of_mem_host_port {u : Url} (h : IsPlace u host)
    (hc : c ∈ host ++ portText u.port) : isPlaceChar c = true := by
  rcases List.mem_append.mp hc with hhost | hport
  · exact isPlaceChar_of_mem_host h.host hhost
  · exact isPlaceChar_of_mem_portText hport

/-- A written login is read as the user and the password that it was written for. -/
theorem IsPlace.exists_splitUser {u : Url} (h : IsPlace u host) :
    ∃ login, splitUser (placeText u host) = (login, host ++ portText u.port) ∧
      (splitMark ':' (login.getD [])).1 = u.user ∧
      (splitMark ':' (login.getD [])).2.getD [] = u.password := by
  have hplace : '@' ∉ host ++ portText u.port := fun hmem =>
    ne_of_isPlaceChar (isPlaceChar_of_mem_host_port h hmem) (by decide) rfl
  have huser : ':' ∉ u.user := fun hmem => ne_of_printableBut (h.user ':' hmem) (by decide) rfl
  unfold placeText loginChars
  by_cases hnone : (u.user.isEmpty && u.password.isEmpty) = true
  · rw [if_pos hnone]
    rw [Bool.and_eq_true, List.isEmpty_iff, List.isEmpty_iff] at hnone
    refine ⟨none, splitUser_of_notMem hplace, ?_, ?_⟩
    · rw [hnone.1]
      rfl
    · rw [hnone.2]
      rfl
  · rw [if_neg hnone]
    by_cases hpassword : u.password = []
    · refine ⟨some u.user, ?_, ?_, ?_⟩
      · rw [hpassword]
        simpa using splitUser_append u.user hplace
      · rw [Option.getD_some, splitMark_of_notMem huser]
      · rw [Option.getD_some, splitMark_of_notMem huser, hpassword]
        rfl
    · refine ⟨some (u.user ++ ':' :: u.password), ?_, ?_, ?_⟩
      · have hsome : u.password.isEmpty = false := by simpa using hpassword
        rw [hsome]
        simpa using splitUser_append (u.user ++ ':' :: u.password) hplace
      · rw [Option.getD_some, splitMark_append huser]
      · rw [Option.getD_some, splitMark_append huser, Option.getD_some]

theorem isPlaceChar_of_mem_loginChars {u : Url} (h : IsPlace u host) (hc : c ∈ u.loginChars) :
    isPlaceChar c = true ∨ c = '@' := by
  unfold loginChars at hc
  split at hc
  · cases hc
  · rw [List.mem_append, List.mem_append, List.mem_singleton] at hc
    rcases hc with (huser | hpassword) | hmark
    · exact .inl (isPlaceChar_of_isUserChar (h.user c huser))
    · split at hpassword
      · cases hpassword
      · rcases List.mem_cons.mp hpassword with rfl | hmem
        · exact .inl (by decide)
        · exact .inl (isPlaceChar_of_isUserChar (h.password c hmem))
    · exact .inr hmark

theorem isPlaceChar_of_mem_placeText {u : Url} (h : IsPlace u host) (hc : c ∈ placeText u host) :
    isPlaceChar c = true ∨ c = '@' := by
  rcases List.mem_append.mp hc with hlogin | hplace
  · exact isPlaceChar_of_mem_loginChars h hlogin
  · exact .inl (isPlaceChar_of_mem_host_port h hplace)

/-- The place that has been read is read again, in front of any path. -/
theorem IsPlace.readAuthority_eq {u : Url} {query fragment : Option (List Char)}
    (h : IsPlace u host) (hweb : isWeb u.scheme = true) (hfile : u.scheme ≠ "file".toList)
    (hpath : ∀ c, path.head? = some c → c = '/') :
    readAuthority u.scheme (placeText u host ++ path) query fragment =
      .ok { u with path := pathText true path, query := query, fragment := fragment } := by
  have hslash : ∀ c ∈ placeText u host, (!isSlash true c) = true := by
    intro c hc
    rcases isPlaceChar_of_mem_placeText h hc with hplace | rfl
    · rw [isSlash_of_isPlaceChar hplace]
      rfl
    · decide
  have hstop : path.takeWhile (!isSlash true ·) = [] ∧ path.dropWhile (!isSlash true ·) = path := by
    cases path with
    | nil => exact ⟨rfl, rfl⟩
    | cons c rest =>
      obtain rfl := hpath c rfl
      exact ⟨rfl, rfl⟩
  obtain ⟨login, hlogin, huser, hpassword⟩ := h.exists_splitUser
  have hauthority : splitUser ((placeText u host ++ path).takeWhile (!isSlash true ·)) =
      (login, host ++ portText u.port) := by
    rw [List.takeWhile_append_of_pos hslash, hstop.1, List.append_nil, hlogin]
  have hport : readPort u.scheme (u.port.map (Nat.toDigits 10)) = .ok u.port := by
    cases hp : u.port with
    | none => rfl
    | some p => exact readPort_toDigits (h.port p hp)
  have hsome : host.isEmpty = false := by simpa using h.host.ne_nil
  rw [Url.readAuthority_eq hweb hfile hauthority (splitPort_host h.host u.port), hsome,
    h.host.ofWebChars_eq, hport, List.dropWhile_append_of_pos hslash, hstop.2, huser, hpassword,
    percentEncode_of_plain h.user, percentEncode_of_plain h.password, h.host_eq]
  rfl

end ChainAccess.Url
