/-!
Blank characters, that is, those with the property `White_Space`. A text is
split at its blanks into words, and it is collapsed by joining its words with
single spaces.
-/

namespace LazyGL.Blank

/-- The first and the last code point of each run of blank characters. -/
def ranges : List (Nat × Nat) :=
  [(0x09, 0x0D), (0x20, 0x20), (0x85, 0x85), (0xA0, 0xA0), (0x1680, 0x1680),
    (0x2000, 0x200A), (0x2028, 0x2029), (0x202F, 0x202F), (0x205F, 0x205F),
    (0x3000, 0x3000)]

def isBlank (c : Char) : Bool :=
  ranges.any fun (first, last) => first ≤ c.toNat && c.toNat ≤ last

def trimChars (chars : List Char) : List Char :=
  ((chars.dropWhile isBlank).reverse.dropWhile isBlank).reverse

def strip (text : String) : String :=
  String.ofList (text.toList.filter fun c => !isBlank c)

/-- The longest runs of characters that are not blank, in order. -/
def words (chars : List Char) : List (List Char) :=
  (chars.splitOnP isBlank).filter fun word => !word.isEmpty

def collapse (text : String) : String :=
  String.ofList ([' '].intercalate (words text.toList))

end LazyGL.Blank
