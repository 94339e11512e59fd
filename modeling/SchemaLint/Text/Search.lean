/-!
# Search in a text

Plain substring search, exact character by character.
-/

namespace SchemaLint.Text

/-- `needle` stands somewhere in the text. -/
def contains (needle : List Char) : List Char → Bool
  | [] => needle.isEmpty
  | c :: cs => needle.isPrefixOf (c :: cs) || contains needle cs

/-- The text after the first occurrence of `needle`, with the text before it. -/
def splitAtFirst? (needle : List Char) : List Char → Option (List Char × List Char)
  | [] => if needle.isEmpty then some ([], []) else none
  | c :: cs =>
      if needle.isPrefixOf (c :: cs) then some ([], (c :: cs).drop needle.length)
      else (splitAtFirst? needle cs).map fun (before, after) => (c :: before, after)

end SchemaLint.Text
