import SchemaLint.Yaml.Token

/-!
# Directives

Lines before a document that tell the version of the format, or what a handle of
tags stands for. There are no others.
-/

namespace SchemaLint.Yaml

open Text

/-- A directive as a token, and how many characters its value takes. -/
abbrev DirectiveValue := TokenKind × Nat

/-- Digits of a number in a version. -/
def longestVersionNumber : Nat := 9

/-- The number that a text starts with, and its digits. -/
def versionNumber? (cs : List Char) : Option (Nat × Nat) :=
  let digits := cs.takeWhile isDigit
  if digits.isEmpty || longestVersionNumber < digits.length then none
  else some (digits.foldl (fun n c => 10 * n + (c.toNat - '0'.toNat)) 0, digits.length)

/-- Two numbers with a point between them. -/
def versionValue? (cs : List Char) : Option DirectiveValue := do
  let (major, length) ← versionNumber? cs
  match cs.drop length with
  | '.' :: rest =>
      let (minor, more) ← versionNumber? rest
      return (.version major minor, length + 1 + more)
  | _ => none

/-- The handle that a text starts with: a mark alone, or a name between two. -/
def handleName? : List Char → Option String
  | '!' :: cs =>
      let name := cs.takeWhile isNameChar
      if (cs.drop name.length).head? = some '!' then some (handleOf name)
      else if name.isEmpty then some "!"
      else none
  | _ => none

/-- A handle and how the tags start that it stands for, with blanks between them. -/
def handleValue? (cs : List Char) : Option DirectiveValue := do
  let name ← handleName? cs
  let behind := cs.drop name.length
  let blanks := (behind.takeWhile isSpaceOrTab).length
  let (octets, length) ← tagOctets? true 0 (behind.drop blanks)
  if blanks = 0 || length = 0 || !((behind.drop (blanks + length)).head?.all isGap) then none
  return (.handle name (untilNull octets), name.length + blanks + length)

/-- The value of a directive by its name. -/
def directiveValue? (name : String) (cs : List Char) : Option DirectiveValue :=
  match name with
  | "YAML" => versionValue? cs
  | "TAG" => handleValue? cs
  | _ => none

end SchemaLint.Yaml
