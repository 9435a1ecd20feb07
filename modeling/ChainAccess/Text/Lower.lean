-- Lower-casing and searching, as far as a pattern of plain letters can see.

namespace ChainAccess.Text

/-- The lower-case form of a character. Outside the plain letters only two
characters have a plain letter in their lower-case form, the Kelvin sign and
the dotted capital I; every other character stays, since no pattern of plain
letters can match what it would become. -/
def lowerChar (c : Char) : List Char :=
  if c = '\u212a' then ['k']
  else if c = '\u0130' then ['i', '\u0307']
  else [c.toLower]

/-- A text in lower case. -/
def lower (cs : List Char) : List Char := cs.flatMap lowerChar

/-- Whether `pattern` stands somewhere in the text. -/
def contains (pattern : List Char) : List Char → Bool
  | [] => pattern.isEmpty
  | c :: rest => pattern.isPrefixOf (c :: rest) || contains pattern rest

/-- Whether one of the patterns stands somewhere in the text, in any case. -/
def mentions (patterns : List String) (s : String) : Bool :=
  patterns.any fun p => contains p.toList (lower s.toList)

/-- Drops what `p` accepts from the end. -/
def trimEnd (p : Char → Bool) (cs : List Char) : List Char :=
  (cs.reverse.dropWhile p).reverse

end ChainAccess.Text
