/-!
# Faults of a schema text

Everything that can be wrong with a text of the schema definition language, as
causes. `Fault.message` words each of them. Reading never stops at a fault: it
is noted at a byte offset and reading goes on.
-/

namespace SchemaLint.Sdl

/-- A closing bracket that a production insists on. -/
inductive Closer
  | brace
  | paren
  | bracket
  deriving DecidableEq, Repr

def Closer.label : Closer → String
  | .brace => "R_CURLY"
  | .paren => "R_PAREN"
  | .bracket => "R_BRACK"

/-- Characters that form no token. -/
inductive LexicalFault
  | strayCharacter (c : Char)
  | strayAfterMinus (c : Char)
  | unterminatedSpread
  | leadingZero
  | integerSuffix (c : Char)
  | floatSuffix (c : Char)
  | noFraction (c : Char)
  | noExponent (c : Char)
  | noExponentDigit (c : Char)
  | endInFloat
  | lineBreakInString
  | unknownEscape
  | invalidUnicodeEscape
  | incompleteUnicodeEscape
  | unpairedSurrogate
  | notAScalarValue
  | unterminatedString
  | endAfterQuote
  deriving DecidableEq, Repr

/-- Tokens that fit no production. -/
inductive GrammarFault
  | emptyDocument
  | unclosed (closer : Closer) (found : String)
  | levelsExhausted
  | noName
  | noObjectName
  | noDefinitionHere
  | noDefinition
  | unknownExtension
  | noRootOperation
  | noRootOperationName
  | noAtSign
  | noLocations
  | invalidLocation
  | noLocation
  | nothingToExtendObject
  | nothingToExtendInterface
  | nothingToExtendEnum
  | nothingToExtendInput
  | nothingToExtendUnion
  | nothingToExtendScalar
  | nothingToExtendSchema
  | noInterfaceName
  | noUnionMember
  | noField
  | noFieldType
  | noTypeHere
  | noArgumentDefinition
  | noInputValue
  | noEnumValues
  | reservedEnumValue
  | noEnumValue
  | noArgument
  | noItemType
  | variableInConstant
  | noValue
  | unknownOperation
  | noSelectionSetHere
  | noOperation
  | noVariable
  | reservedFragmentName
  | noFragmentName
  | noTypeCondition
  | noTypeConditionName
  | noFragmentSelectionSet
  | noInlineSelectionSet
  | noFragmentAfterSpread
  | noSelection
  deriving DecidableEq, Repr

inductive Fault
  | lexical (fault : LexicalFault)
  | grammar (fault : GrammarFault)
  deriving DecidableEq, Repr

def LexicalFault.message : LexicalFault → String
  | .strayCharacter c => "Unexpected character \"" ++ c.toString ++ "\""
  | .strayAfterMinus c => "Unexpected character `" ++ c.toString ++ "`"
  | .unterminatedSpread => "Unterminated spread operator"
  | .leadingZero => "Numbers must not have non-significant leading zeroes"
  | .integerSuffix c => "Unexpected character `" ++ c.toString ++ "` as integer suffix"
  | .floatSuffix c => "Unexpected character `" ++ c.toString ++ "` as float suffix"
  | .noFraction c => "Unexpected character `" ++ c.toString ++ "`, expected fractional digit"
  | .noExponent c =>
      "Unexpected character `" ++ c.toString ++ "`, expected exponent digit or sign"
  | .noExponentDigit c => "Unexpected character `" ++ c.toString ++ "`, expected exponent digit"
  | .endInFloat => "Unexpected EOF in float value"
  | .lineBreakInString => "unexpected line terminator"
  | .unknownEscape => "unexpected escaped character"
  | .invalidUnicodeEscape => "invalid unicode escape sequence"
  | .incompleteUnicodeEscape => "incomplete unicode escape sequence"
  | .unpairedSurrogate => "unpaired surrogate in unicode escape sequence"
  | .notAScalarValue => "unicode escape sequence must specify a Unicode scalar value"
  | .unterminatedString => "unterminated string value"
  | .endAfterQuote => "unexpected end of data while lexing string value"

def GrammarFault.message : GrammarFault → String
  | .emptyDocument => "Unexpected <EOF>."
  | .unclosed closer found => "expected " ++ closer.label ++ ", got " ++ found
  | .levelsExhausted => "parser recursion limit reached"
  | .noName => "expected a Name"
  | .noObjectName => "expected a name"
  | .noDefinitionHere => "expected a StringValue, Name or OperationDefinition"
  | .noDefinition => "expected definition"
  | .unknownExtension => "Invalid Type System Extension. This extension cannot be applied."
  | .noRootOperation => "expected Root Operation Type Definition"
  | .noRootOperationName => "expected a Name Type"
  | .noAtSign => "expected @ symbol"
  | .noLocations => "expected Directive Locations"
  | .invalidLocation => "expected valid Directive Location"
  | .noLocation => "expected Directive Location"
  | .nothingToExtendObject =>
      "expected an Implements Interface, Directives or a Fields Definition"
  | .nothingToExtendInterface =>
      "exptected an Implements Interfaces, Directives, or a Fields Definition"
  | .nothingToExtendEnum => "expected Directive or Enum Values Definition"
  | .nothingToExtendInput => "expected Directives or an Input Fields Definition"
  | .nothingToExtendUnion => "expected Directives or Union Member Types"
  | .nothingToExtendScalar => "expected Directives"
  | .nothingToExtendSchema => "expected directives or Root Operation Type Definition"
  | .noInterfaceName => "expected an Interface name"
  | .noUnionMember => "expected Union Member Type"
  | .noField => "expected Field Definition"
  | .noFieldType => "expected a type"
  | .noTypeHere => "expected a Type"
  | .noArgumentDefinition => "expected an Argument Definition"
  | .noInputValue => "expected an Input Value Definition"
  | .noEnumValues => "expected Enum Value Definition"
  | .reservedEnumValue => "invalid Enum Value"
  | .noEnumValue => "expected Enum Value"
  | .noArgument => "expected an Argument"
  | .noItemType => "expected item type"
  | .variableInConstant => "unexpected variable value in a Const context"
  | .noValue => "expected a valid Value"
  | .unknownOperation => "expected either a 'mutation', a 'query', or a 'subscription'"
  | .noSelectionSetHere => "expected a Selection Set"
  | .noOperation => "expected an Operation Type or a Selection Set"
  | .noVariable => "expected a Variable Definition"
  | .reservedFragmentName => "Fragment Name cannot be 'on'"
  | .noFragmentName => "expected Fragment Name"
  | .noTypeCondition => "expected 'on'"
  | .noTypeConditionName => "expected a Name in Type Condition"
  | .noFragmentSelectionSet => "expected a Selection Set"
  | .noInlineSelectionSet => "expected Selection Set"
  | .noFragmentAfterSpread => "expected an Inline Fragment or a Fragment Spread"
  | .noSelection => "expected at least one Selection in Selection Set"

def Fault.message : Fault → String
  | .lexical fault => fault.message
  | .grammar fault => fault.message

/-- The message as a report shows it. Only the level limit goes without a mark. -/
def Fault.report : Fault → String
  | .grammar .levelsExhausted => GrammarFault.message .levelsExhausted
  | fault => "syntax error: " ++ fault.message

end SchemaLint.Sdl
