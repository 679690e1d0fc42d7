import TagCheck.Token.Basic

/-! Why a source is refused before it is checked. -/
namespace TagCheck

inductive Cause where
  | unexpectedChar (c : Char)
  | unterminatedComment
  | unterminatedString
  | newlineInString
  | unterminatedEscape
  | badHexEscape
  | badUnicodeEscape
  | unterminatedTemplate
  | unterminatedRegex
  | missingDigits
  | badNumber (digits : String)
  | tooDeep (limit : Nat)
  | expected (kind : TokenKind)
  | expectedSemicolon
  | expectedFunctionName
  | expectedIdentifier
  | expectedExpression
  | expectedPropertyName
  | expectedColonAfterKey
  | expectedTemplate
  | expectedTemplateBrace
  | badAssignmentTarget
  | badDestructuringTarget
  | trailingToken
  deriving DecidableEq, Repr

def Cause.text : Cause → String
  | unexpectedChar c => "unexpected character '" ++ c.toString ++ "'"
  | unterminatedComment => "unterminated block comment"
  | unterminatedString => "unterminated string"
  | newlineInString => "unterminated string (newline in string)"
  | unterminatedEscape => "unterminated escape sequence"
  | badHexEscape => "invalid hexadecimal escape"
  | badUnicodeEscape => "invalid unicode escape"
  | unterminatedTemplate => "unterminated template literal"
  | unterminatedRegex => "unterminated regular expression"
  | missingDigits => "missing digits after numeric prefix"
  | badNumber digits => "invalid number '" ++ digits ++ "'"
  | tooDeep limit => "nesting exceeds " ++ toString limit ++ " levels"
  | expected kind => "expected " ++ kind.label
  | expectedSemicolon => "expected ';'"
  | expectedFunctionName => "expected function name"
  | expectedIdentifier => "expected identifier"
  | expectedExpression => "expected expression"
  | expectedPropertyName => "expected property name"
  | expectedColonAfterKey => "expected ':' after computed property key"
  | expectedTemplate => "expected template literal"
  | expectedTemplateBrace => "expected '\x7d' in template literal"
  | badAssignmentTarget => "invalid assignment target"
  | badDestructuringTarget => "invalid destructuring target"
  | trailingToken => "unexpected token after expression"

structure SourceError where
  cause : Cause
  pos : Position
  deriving DecidableEq, Repr

def SourceError.message (e : SourceError) (file : String) : String :=
  "error: " ++ e.cause.text ++ "\n  --> " ++ file ++ ":" ++ toString e.pos.line ++ ":" ++
    toString e.pos.column

end TagCheck
