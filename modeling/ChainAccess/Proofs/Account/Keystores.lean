import ChainAccess.Proofs.Account.Headers
import ChainAccess.Proofs.Rpc.Words
import Mathlib.Data.String.Basic
import Mathlib.Tactic.Common
-- Which keystore an account is unlocked from. A file is one of the account when
-- its name holds the digits of the address, or its content is a record with
-- them as its address, of which nothing else is read. The first such file in the
-- order of the names is taken, whatever else lies in the directory, and an account
-- is unlocked with its own key or not at all.

namespace ChainAccess.Keystore

open Secp256k1 (PrivateKey)

/-! ## Markers -/

/-- The text is `digits` behind every marker in front of it. -/
def Unmarks (text digits : List Char) : Prop :=
  (∃ k, text = (List.replicate k ['0', 'x']).flatten ++ digits) ∧ ¬ ['0', 'x'] <+: digits

theorem not_marked_of_stripMarkers (cs : List Char) : ¬ ['0', 'x'] <+: Hex.stripMarkers cs := by
  fun_induction Hex.stripMarkers cs with
  | case1 rest ih => exact ih
  | case2 cs hne =>
    rintro ⟨rest, rfl⟩
    exact hne rest rfl

theorem stripMarkers_of_not_marked {cs : List Char} (h : ¬ ['0', 'x'] <+: cs) :
    Hex.stripMarkers cs = cs := by
  unfold Hex.stripMarkers
  split
  · next rest => exact absurd ⟨rest, rfl⟩ h
  · rfl

theorem exists_markers (cs : List Char) :
    ∃ k, cs = (List.replicate k ['0', 'x']).flatten ++ Hex.stripMarkers cs := by
  fun_induction Hex.stripMarkers cs with
  | case1 rest ih =>
    obtain ⟨k, hk⟩ := ih
    exact ⟨k + 1, by rw [List.replicate_succ, List.flatten_cons, List.append_assoc, ← hk]; rfl⟩
  | case2 cs hne => exact ⟨0, rfl⟩

theorem stripMarkers_eq_iff {cs digits : List Char} :
    Hex.stripMarkers cs = digits ↔ Unmarks cs digits := by
  constructor
  · rintro rfl
    exact ⟨exists_markers cs, not_marked_of_stripMarkers cs⟩
  · rintro ⟨⟨k, rfl⟩, hnot⟩
    induction k with
    | zero => exact stripMarkers_of_not_marked hnot
    | succ k ih => exact ih

/-! ## Files of an account -/

variable {entries : List (String × FileTree)} {address : Address} {file : String × Option Bytes}

/-- The regular files of a directory: their names, and their contents as far as they can be
read. -/
inductive FileIn (entries : List (String × FileTree)) : String × Option Bytes → Prop
  | plain {name : String} {content : Bytes} :
      (name, FileTree.file content) ∈ entries → FileIn entries (name, some content)
  | sealed {name : String} : (name, FileTree.sealed) ∈ entries → FileIn entries (name, none)

/-- The file is one of the account, by its name or by the header in it. -/
inductive Belongs (address : Address) : String × Option Bytes → Prop
  | named {name : String} {content : Option Bytes} :
      address.digits <:+: Text.lower name.toList → Belongs address (name, content)
  | headed {name field : String} {content : Bytes} {digits : List Char} :
      IsHeader field content → Unmarks field.toList digits →
      Text.lower digits = address.digits → Belongs address (name, some content)

theorem contentMatches_iff {content : Bytes} :
    contentMatches address content = true ↔
      ∃ field, addressMember? content = some field ∧
        Text.lower (Hex.stripMarkers field.toList) = address.digits := by
  unfold contentMatches
  cases addressMember? content <;> simp

theorem isFileOf_iff : isFileOf address file = true ↔ Belongs address file := by
  obtain ⟨name, content⟩ := file
  rw [isFileOf, Bool.or_eq_true, nameMatches, Text.contains_iff]
  constructor
  · rintro (hcontent | hname)
    · cases content with
      | none => cases hcontent
      | some bytes =>
        obtain ⟨field, hfield, hdigits⟩ := contentMatches_iff.mp hcontent
        exact .headed (addressMember?_eq_some_iff.mp hfield) (stripMarkers_eq_iff.mp rfl) hdigits
    · exact .named hname
  · intro h
    cases h with
    | named hname => exact Or.inr hname
    | headed hheader hunmarks hdigits =>
      have hfield := addressMember?_eq_some_iff.mpr hheader
      refine Or.inl (contentMatches_iff.mpr ⟨_, hfield, ?_⟩)
      rw [stripMarkers_eq_iff.mpr hunmarks, hdigits]

theorem mem_filesOf : file ∈ filesOf entries ↔ FileIn entries file := by
  rw [filesOf, List.mem_mergeSort, List.mem_filterMap]
  constructor
  · rintro ⟨⟨name, tree⟩, hmem, hfile⟩
    cases tree with
    | file content =>
      cases hfile
      exact .plain hmem
    | sealed =>
      cases hfile
      exact .sealed hmem
    | dir inner => cases hfile
  · intro h
    cases h with
    | plain hmem => exact ⟨_, hmem, rfl⟩
    | sealed hmem => exact ⟨_, hmem, rfl⟩

/-- The files stand in the order of their names. -/
theorem filesOf_sorted (entries : List (String × FileTree)) :
    (filesOf entries).Pairwise fun a b => a.1 ≤ b.1 := by
  refine (List.pairwise_mergeSort (fun a b c hab hbc => ?_) (fun a b => ?_) _).imp fun h => ?_
  · simp only [decide_eq_true_eq] at hab hbc ⊢
    exact le_trans hab hbc
  · simpa using le_total a.1 b.1
  · simpa using h

/-! ## Finding -/

variable {path : String}

/-- The file that is found is one of the account, and none with a smaller name is. -/
theorem first_of_find (h : find (some (.dir entries)) path address = .ok file) :
    FileIn entries file ∧ Belongs address file ∧
      ∀ other, FileIn entries other → Belongs address other → file.1 ≤ other.1 := by
  unfold find at h
  cases hfound : (filesOf entries).find? (isFileOf address) with
  | none => simp [hfound] at h
  | some found =>
    obtain rfl : found = file := by simpa [hfound] using h
    obtain ⟨hfile, before, after, hsplit, hbefore⟩ := List.find?_eq_some_iff_append.mp hfound
    refine ⟨mem_filesOf.mp (List.mem_of_find?_eq_some hfound), isFileOf_iff.mp hfile,
      fun other hother hbelongs => ?_⟩
    have hmem : other ∈ before ++ found :: after := hsplit ▸ mem_filesOf.mpr hother
    rcases List.mem_append.mp hmem with hin | hin
    · have hnot := hbefore other hin
      simp [isFileOf_iff.mpr hbelongs] at hnot
    · rcases List.mem_cons.mp hin with rfl | hafter
      · exact le_refl _
      · have hsorted := filesOf_sorted entries
        rw [hsplit] at hsorted
        exact List.rel_of_pairwise_cons (List.pairwise_append.mp hsorted).2.1 hafter

/-- A search without result has met no file of the account, and nothing else fails it. -/
theorem find_error_iff {e : AccountError} :
    find (some (.dir entries)) path address = .error e ↔
      e = .keyNotFound address ∧ ∀ file, FileIn entries file → ¬ Belongs address file := by
  have hnone : (filesOf entries).find? (isFileOf address) = none ↔
      ∀ file, FileIn entries file → ¬ Belongs address file := by
    simp only [List.find?_eq_none, mem_filesOf, isFileOf_iff]
  rw [← hnone]
  unfold find
  cases hfound : (filesOf entries).find? (isFileOf address) with
  | none => simp [hfound, eq_comm]
  | some found => simp [hfound]

/-! ## Unlocking -/

/-- What becomes of an account when its keystore gives a key or a fault. -/
inductive Ending (address : Address) :
    Except Fault PrivateKey → Except AccountError PrivateKey → Prop
  | own {key : PrivateKey} : key.address = address → Ending address (.ok key) (.ok key)
  | foreign {key : PrivateKey} : key.address ≠ address →
      Ending address (.ok key) (.error (.addressMismatch address key.address))
  | failed {fault : Fault} (message : String) : fault ≠ .broken →
      Ending address (.error fault) (.error (.decryption address message))
  | broken (message : String) : Ending address (.error .broken) (.error (.internal message))

theorem Ending.own_of_ok {read : Except Fault PrivateKey} {key : PrivateKey}
    (h : Ending address read (.ok key)) : key.address = address := by
  cases h with
  | own hown => exact hown

/-- What was read decides what becomes of the account. -/
theorem ending_of_read (address : Address) (read : Except Fault PrivateKey) :
    Ending address read (read.mapError (Fault.toError address) >>= fun key =>
      if key.address = address then pure key
      else throw (.addressMismatch address key.address)) := by
  cases read with
  | error fault =>
    cases fault with
    | broken => exact .broken _
    | _ => exact .failed _ (by simp)
  | ok key =>
    have hok : (Except.ok key : Except Fault PrivateKey).mapError (Fault.toError address) =
        .ok key := rfl
    rw [hok, Json.ok_bind]
    by_cases hown : key.address = address
    · rw [if_pos hown]
      exact .own hown
    · rw [if_neg hown]
      exact .foreign hown

variable {dir : Option FileTree}

theorem unlock_of_find (h : find dir path address = .ok file) (password : String) :
    Ending address (decryptFile (Utf8.encode password) file.2)
      (unlock dir path address password) := by
  obtain ⟨name, content⟩ := file
  rw [unlock, h, Json.ok_bind]
  exact ending_of_read address _

theorem unlock_of_find_error {e : AccountError} (h : find dir path address = .error e)
    (password : String) : unlock dir path address password = .error e := by
  unfold unlock
  rw [h]
  rfl

theorem own_of_unlock {password : String} {key : PrivateKey}
    (h : unlock dir path address password = .ok key) : key.address = address := by
  cases hfound : find dir path address with
  | error e =>
    rw [unlock_of_find_error hfound] at h
    cases h
  | ok file =>
    have hending := unlock_of_find hfound password
    rw [h] at hending
    exact hending.own_of_ok

/-- The file of an account is the one with the smallest name among those whose name or
header holds the digits of the address, whatever else lies in the directory, and the
search fails exactly when there is none. What the file gives decides how the account is
unlocked, and never with a key that is not its own. -/
theorem an_account_is_unlocked_from_its_first_file (entries : List (String × FileTree))
    (path : String) (address : Address) (password : String) :
    (∀ e, find (some (.dir entries)) path address = .error e ↔
      e = .keyNotFound address ∧ ∀ file, FileIn entries file → ¬ Belongs address file) ∧
    (∀ file, find (some (.dir entries)) path address = .ok file →
      FileIn entries file ∧ Belongs address file ∧
        ∀ other, FileIn entries other → Belongs address other → file.1 ≤ other.1) ∧
    (∀ dir e, find dir path address = .error e → unlock dir path address password = .error e) ∧
    (∀ dir file, find dir path address = .ok file →
      Ending address (decryptFile (Utf8.encode password) file.2)
        (unlock dir path address password)) ∧
    ∀ dir key, unlock dir path address password = .ok key → key.address = address :=
  ⟨fun _ => find_error_iff, fun _ => first_of_find,
    fun _ _ herror => unlock_of_find_error herror password,
    fun _ _ hfound => unlock_of_find hfound password, fun _ _ => own_of_unlock⟩

/-! ## A keystore among others -/

/-- An account. -/
def owner : Address := ⟨0x8ba1f109551bd432803012645ac136ddd64dba72⟩

/-- Its keystore, with an id that is no text and its digits in another case. -/
def ownKeystore : Bytes :=
  Utf8.encode ("\x7b\"id\":\"\\ud800\", \"address\" : " ++
    "\"0x8BA1f109551bD432803012645Ac136ddd64DBA72\",\"crypto\":\x7b\x7d\x7d\n")

/-- A keystore that breaks off behind the digits of the account. -/
def brokenKeystore : Bytes :=
  Utf8.encode "\x7b\"address\":\"8ba1f109551bd432803012645ac136ddd64dba72\""

/-- A keystore of another account. -/
def foreignKeystore : Bytes :=
  Utf8.encode "\x7b\"address\":\"8ba1f109551bd432803012645ac136ddd64dba7f\"\x7d"

/-- A directory with the three. -/
def drawer : List (String × FileTree) :=
  [("a.json", .file brokenKeystore), ("b.json", .file foreignKeystore),
    ("c.json", .file ownKeystore)]

theorem filesOf_drawer : filesOf drawer = [("a.json", some brokenKeystore),
    ("b.json", some foreignKeystore), ("c.json", some ownKeystore)] :=
  List.mergeSort_of_pairwise (by decide +kernel)

/-- The keystore of the account is found by its header alone. -/
theorem a_keystore_is_found_by_its_header :
    let own := ("c.json", some ownKeystore)
    ¬ owner.digits <:+: Text.lower own.1.toList ∧
    find (some (.dir drawer)) "keys" owner = .ok own ∧
    (FileIn drawer own ∧ Belongs owner own ∧
      ∀ other, FileIn drawer other → Belongs owner other → own.1 ≤ other.1) ∧
    Ending owner (decryptFile (Utf8.encode "secret") own.2)
      (unlock (some (.dir drawer)) "keys" owner "secret") := by
  intro own
  have hname : ¬ owner.digits <:+: Text.lower own.1.toList := by decide +kernel
  have hsearch : [("a.json", some brokenKeystore), ("b.json", some foreignKeystore), own].find?
      (isFileOf owner) = some own := by decide +kernel
  have hfound : find (some (.dir drawer)) "keys" owner = .ok own := by
    unfold find
    dsimp only
    rw [filesOf_drawer, hsearch]
  obtain ⟨-, hfirst, -, hending, -⟩ :=
    an_account_is_unlocked_from_its_first_file drawer "keys" owner "secret"
  exact ⟨hname, hfound, hfirst own hfound, hending _ own hfound⟩

end ChainAccess.Keystore
