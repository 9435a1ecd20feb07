import ChainAccess.Url.Percent
-- Hosts of URLs: names, addresses of four numbers, and addresses of eight
-- groups in brackets. A name whose last label is a number must be an address
-- of four numbers. Labels with other letters than those of ASCII are written
-- in their ASCII form.

namespace ChainAccess.Url

/-- Why a text is no URL. -/
inductive Fault where
  | noScheme | emptyHost | badPort | badNumbers | badGroups | badName | badHostChar
  deriving DecidableEq, Repr

/-- The words for a text that is no URL. -/
def Fault.message : Fault → String
  | .noScheme => "relative URL without a base"
  | .emptyHost => "empty host"
  | .badPort => "invalid port number"
  | .badNumbers => "invalid IPv4 address"
  | .badGroups => "invalid IPv6 address"
  | .badName => "invalid international domain name"
  | .badHostChar => "invalid domain character"

namespace Host

/-! ## Four numbers -/

/-- The digits of a number behind the mark of its base. -/
def radixOf : List Char → Nat × List Char
  | '0' :: 'x' :: ds => (16, ds)
  | '0' :: 'X' :: ds => (16, ds)
  | '0' :: d :: ds => (8, d :: ds)
  | ds => (10, ds)

/-- A number in base 16 behind `0x`, in base 8 behind `0`, else in base 10;
no digits behind the mark are zero. -/
def number? (cs : List Char) : Option Nat :=
  if cs.isEmpty then none
  else
    let (radix, ds) := radixOf cs
    ds.foldl (fun acc c => acc.bind fun n =>
      (Hex.value? c).bind fun d => if d < radix then some (radix * n + d) else none) (some 0)

/-- The labels of a name, without the empty one behind a last point. -/
def labels (cs : List Char) : List (List Char) :=
  let parts := cs.splitOnP (· = '.')
  match parts.reverse with
  | [] :: rest@(_ :: _) => rest.reverse
  | _ => parts

/-- Whether the last label is a number, so that the name is an address. -/
def endsInNumber (cs : List Char) : Bool :=
  match (labels cs).getLast? with
  | some l => (!l.isEmpty && l.all Char.isDigit) ||
      match l with
      | '0' :: 'x' :: ds => ds.all fun c => (Hex.value? c).isSome
      | '0' :: 'X' :: ds => ds.all fun c => (Hex.value? c).isSome
      | _ => false
  | none => false

/-- The address that one to four numbers write; the last one fills what the
others leave. -/
def fourNumbers? (cs : List Char) : Option Nat :=
  match (labels cs).mapM number? with
  | none => none
  | some ns =>
    match ns.reverse with
    | [] => none
    | last :: init =>
      let rest := Nat.pow 256 (4 - init.length)
      if 3 < init.length || init.any (255 < ·) || rest ≤ last then none
      else some (init.reverse.foldl (fun n part => 256 * n + part) 0 * rest + last)

/-- An address with points between its four numbers. -/
def dotted (n : Nat) : List Char :=
  (".".intercalate ([24, 16, 8, 0].map fun s => toString (n / Nat.pow 2 s % 256))).toList

/-! ## Eight groups -/

/-- One group: up to four digits in base sixteen. -/
def group? (cs : List Char) : Option Nat :=
  if cs.isEmpty || 4 < cs.length then none else Hex.value cs

/-- A number from 0 to 255 in base ten, without leading zeros. -/
def octet? (cs : List Char) : Option Nat :=
  match cs with
  | ['0'] => some 0
  | '0' :: _ => none
  | [] => none
  | cs =>
    if cs.all Char.isDigit && cs.length ≤ 3 then
      let n := cs.foldl (fun n c => 10 * n + (c.toNat - 48)) 0
      if n < 256 then some n else none
    else none

/-- The groups between colons; the last may be four numbers that stand for
two groups. -/
def groups? : List (List Char) → Option (List Nat)
  | [] => some []
  | [l] =>
    if l.contains '.' then
      match (l.splitOnP (· = '.')).mapM octet? with
      | some [a, b, c, d] => some [256 * a + b, 256 * c + d]
      | _ => none
    else (group? l).map ([·])
  | l :: rest => (group? l).bind fun g => (groups? rest).map (g :: ·)

/-- Where the two colons stand that leave out groups of zeros. -/
def splitGap : List Char → Option (List Char × List Char)
  | ':' :: ':' :: rest => some ([], rest)
  | c :: rest => (splitGap rest).map fun (a, b) => (c :: a, b)
  | [] => none

/-- The groups of a side of the gap, which may be empty. -/
def side? (cs : List Char) : Option (List Nat) :=
  if cs.isEmpty then some [] else groups? (cs.splitOnP (· = ':'))

/-- The eight groups of an address. -/
def eightGroups? (cs : List Char) : Option (List Nat) :=
  match splitGap cs with
  | none => (side? cs).bind fun gs => if gs.length = 8 then some gs else none
  | some (before, behind) =>
    if before.contains '.' then none
    else
      (side? before).bind fun a => (side? behind).bind fun b =>
        if a.length + b.length ≤ 7 then
          some (a ++ List.replicate (8 - a.length - b.length) 0 ++ b)
        else none

/-- The length of the run of zeros at the front. -/
def zeroRun (gs : List Nat) : Nat := (gs.takeWhile (· = 0)).length

/-- Where the first of the longest runs of zeros starts, and its length. -/
def longestRun : Nat → List Nat → Nat × Nat
  | _, [] => (0, 0)
  | i, g :: rest =>
    let here := zeroRun (g :: rest)
    let later := longestRun (i + 1) rest
    if later.2 ≤ here then (i, here) else later

/-- Groups with colons between them. -/
def colonText (gs : List Nat) : List Char :=
  (":".intercalate (gs.map fun g => String.ofList (Hex.ofNat g))).toList

/-- An address in brackets, its longest run of zeros left out. -/
def bracketed (gs : List Nat) : List Char :=
  let (start, run) := longestRun 0 gs
  let inner :=
    if run < 2 then colonText gs
    else colonText (gs.take start) ++ [':', ':'] ++ colonText (gs.drop (start + run))
  '[' :: inner ++ [']']

/-! ## Names -/

/-- A letter in lower case, for the alphabets that pair their cases. -/
def lowerLetter (c : Char) : Char :=
  let n := c.toNat
  if (0xc0 ≤ n && n ≤ 0xde && n != 0xd7) || (0x391 ≤ n && n ≤ 0x3a9 && n != 0x3a2) ||
      (0x410 ≤ n && n ≤ 0x42f) then Char.ofNat (n + 32)
  else if 0x400 ≤ n && n ≤ 0x40f then Char.ofNat (n + 80)
  else if 0x100 ≤ n && n ≤ 0x12f && n % 2 = 0 then Char.ofNat (n + 1)
  else c.toLower

/-- What a character stands for in a name. A wide form is its plain character,
a blank of any width is the blank, which no name holds, every full stop parts
labels, and a hyphen or a joint that is not seen is nothing. -/
def nameChar (c : Char) : List Char :=
  let n := c.toNat
  if n = 0xad || n = 0x200b || n = 0x2060 || n = 0xfeff then []
  else if n = 0xa0 || n = 0x3000 || (0x2000 ≤ n && n ≤ 0x200a) then [' ']
  else if n = 0x3002 || n = 0xff61 then ['.']
  else if 0xff01 ≤ n && n ≤ 0xff5e then [(Char.ofNat (n - 0xfee0)).toLower]
  else [lowerLetter c]

/-- The digit of the ASCII form of a label. -/
def labelDigit (d : Nat) : Char := Char.ofNat (if d < 26 then 97 + d else 22 + d)

/-- Adapts the bias of the ASCII form after a letter, `steps` halvings at most. -/
def adaptBias (first : Bool) (delta points : Nat) : Nat :=
  let d := if first then delta / 700 else delta / 2
  let rec shrink : Nat → Nat → Nat → Nat
    | 0, d, k => k + 36 * d / (d + 38)
    | steps + 1, d, k => if 455 < d then shrink steps (d / 35) (k + 36) else k + 36 * d / (d + 38)
  shrink 64 (d + d / points) 0

/-- From here on a digit of a distance may be the last one, 26 at most. -/
def threshold (bias k : Nat) : Nat :=
  if k ≤ bias then 1 else if bias + 26 ≤ k then 26 else k - bias

theorem threshold_pos (bias k : Nat) : 0 < threshold bias k := by
  unfold threshold
  split
  · exact Nat.one_pos
  · split <;> omega

theorem threshold_le (bias k : Nat) : threshold bias k ≤ 26 := by
  unfold threshold
  split
  · exact Nat.le_of_ble_eq_true rfl
  · split <;> omega

/-- The digits of one distance, least first. -/
def deltaDigits (bias k q : Nat) : List Char :=
  let t := threshold bias k
  if q < t then [labelDigit q]
  else labelDigit (t + (q - t) % (36 - t)) :: deltaDigits bias (k + 36) ((q - t) / (36 - t))
termination_by q
decreasing_by
  have hpos := threshold_pos bias k
  have hdiv := Nat.div_le_self (q - threshold bias k) (36 - threshold bias k)
  omega

/-- What the ASCII form remembers between two letters. -/
structure LabelState where
  delta : Nat
  bias : Nat
  written : Nat
  done : List Char

/-- Writes every letter with the code `n` of the label. -/
def writeLetters (basic n : Nat) : LabelState → List Char → LabelState
  | s, [] => s
  | s, c :: rest =>
    if c.toNat < n then writeLetters basic n { s with delta := s.delta + 1 } rest
    else if c.toNat = n then
      writeLetters basic n
        { delta := 0
          bias := adaptBias (s.written = basic) s.delta (s.written + 1)
          written := s.written + 1
          done := s.done ++ deltaDigits s.bias 36 s.delta } rest
    else writeLetters basic n s rest

/-- Writes the letters of the codes in `codes`, least first. -/
def writeCodes (label : List Char) (basic : Nat) : LabelState → Nat → List Nat → LabelState
  | s, _, [] => s
  | s, n, m :: rest =>
    let s := { s with delta := s.delta + (m - n) * (s.written + 1) }
    let s := writeLetters basic m s label
    writeCodes label basic { s with delta := s.delta + 1 } (m + 1) rest

/-- The ASCII form of a label. -/
def asciiLabel (label : List Char) : List Char :=
  if label.all fun c => c.toNat < 128 then label
  else
    let plain := label.filter fun c => c.toNat < 128
    let codes := ((label.map Char.toNat).filter (128 ≤ ·)).eraseDups.mergeSort
    let head := if plain.isEmpty then [] else plain ++ ['-']
    let s := writeCodes label plain.length ⟨0, 72, plain.length, head⟩ 128 codes
    "xn--".toList ++ s.done

/-- Characters that no host holds. -/
def isRefused (c : Char) : Bool := "\x00\t\n\r #/:<>?@[\\]^|".toList.contains c

/-- Characters that no name holds. -/
def isRefusedInName (c : Char) : Bool :=
  isRefused c || c = '%' || c.toNat < 0x20 || c.toNat = 0x7f

/-- The host of a web address. -/
def ofWebChars (cs : List Char) : Except Fault (List Char) :=
  match cs with
  | '[' :: rest =>
    match rest.reverse with
    | ']' :: inner => (eightGroups? inner.reverse).elim (.error .badGroups) (.ok ∘ bracketed)
    | _ => .error .badGroups
  | cs =>
    match Utf8.text? (percentDecode cs) with
    | none => .error .badName
    | some s =>
      let name := ((s.toList.flatMap nameChar).splitOnP (· = '.')).map asciiLabel
      let name := (".".intercalate (name.map String.ofList)).toList
      if name.isEmpty then .error .emptyHost
      else if name.any isRefusedInName then .error .badHostChar
      else if endsInNumber name then
        (fourNumbers? name).elim (.error .badNumbers) (.ok ∘ dotted)
      else .ok name

/-- The host of a URL of another scheme: kept as it is written. -/
def ofOtherChars (cs : List Char) : Except Fault (List Char) :=
  match cs with
  | '[' :: _ => ofWebChars cs
  | cs => if cs.any isRefused then .error .badHostChar else .ok (percentEncode isPrintable cs)

end Host

end ChainAccess.Url
