/-!
# Lower case against ASCII words

Names are lowered only to be compared with words of ASCII letters. For that it
matters which characters have a lower case that is ASCII, and into how many
characters a character turns; every other letter stays one non-ASCII character
and may as well stay itself.
-/

namespace SchemaLint.Text

def lowerChar (c : Char) : List Char :=
  if 'A' ≤ c && c ≤ 'Z' then [Char.ofNat (c.toNat + 32)]
  else if c = '\u212A' then ['k']
  else if c = '\u0130' then ['i', '\u0307']
  else [c]

def lower (cs : List Char) : List Char := cs.flatMap lowerChar

end SchemaLint.Text
