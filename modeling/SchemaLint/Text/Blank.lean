/-!
# Blank characters

White space as the Unicode property `White_Space` has it, and texts without the
white space around them. A zero-width space and a byte order mark are not blank.
-/

namespace SchemaLint.Text

def isBlank (c : Char) : Bool :=
  let n := c.toNat
  (0x09 ≤ n && n ≤ 0x0D) || n == 0x20 || n == 0x85 || n == 0xA0 || n == 0x1680 ||
    (0x2000 ≤ n && n ≤ 0x200A) || n == 0x2028 || n == 0x2029 || n == 0x202F ||
    n == 0x205F || n == 0x3000

def trimStart (cs : List Char) : List Char := cs.dropWhile isBlank

def trimEnd (cs : List Char) : List Char := (cs.reverse.dropWhile isBlank).reverse

def trim (cs : List Char) : List Char := trimEnd (trimStart cs)

/-- The text holds nothing but blanks. -/
def allBlank (cs : List Char) : Bool := cs.all isBlank

end SchemaLint.Text
