import TagCheck.Double.Basic
import TagCheck.Source

/-! The tokens of a program. -/
namespace TagCheck

inductive Keyword where
  | var | let_ | const | function | return_ | if_ | else_ | while_ | do_ | for_ | break_ | continue_
  | true_ | false_ | null | new | typeof | void | delete | in_ | instanceof | this
  deriving DecidableEq, Repr, Inhabited

namespace Keyword

def all : List Keyword :=
  [var, let_, const, function, return_, if_, else_, while_, do_, for_, break_, continue_, true_,
   false_, null, new, typeof, void, delete, in_, instanceof, this]

def text : Keyword → String
  | var => "var" | let_ => "let" | const => "const" | function => "function"
  | return_ => "return" | if_ => "if" | else_ => "else" | while_ => "while" | do_ => "do"
  | for_ => "for" | break_ => "break" | continue_ => "continue" | true_ => "true"
  | false_ => "false" | null => "null" | new => "new" | typeof => "typeof" | void => "void"
  | delete => "delete" | in_ => "in" | instanceof => "instanceof" | this => "this"

/-- The name of the keyword in messages. -/
def label (k : Keyword) : String := k.text.capitalize

def ofText? (s : String) : Option Keyword := all.find? fun k => k.text == s

end Keyword

inductive Punct where
  | plus | minus | star | slash | percent | plusPlus | minusMinus | amp | pipe | caret | tilde
  | shl | shr | ushr | andAnd | orOr | bang | eq | eqEq | eqEqEq | notEq | notEqEq | lt | le | gt
  | ge | arrow | ellipsis | dot | question | colon | lparen | rparen | lbrace | rbrace | lbracket
  | rbracket | comma | semi
  deriving DecidableEq, Repr, Inhabited

namespace Punct

/-- The name of the sign in messages. -/
def label : Punct → String
  | plus => "Plus" | minus => "Minus" | star => "Star" | slash => "Slash" | percent => "Percent"
  | plusPlus => "PlusPlus" | minusMinus => "MinusMinus" | amp => "Amp" | pipe => "Pipe"
  | caret => "Caret" | tilde => "Tilde" | shl => "Shl" | shr => "Shr" | ushr => "UShr"
  | andAnd => "AndAnd" | orOr => "OrOr" | bang => "Bang" | eq => "Eq" | eqEq => "EqEq"
  | eqEqEq => "EqEqEq" | notEq => "NotEq" | notEqEq => "NotEqEq" | lt => "Lt" | le => "Le"
  | gt => "Gt" | ge => "Ge" | arrow => "Arrow" | ellipsis => "Ellipsis" | dot => "Dot"
  | question => "Question" | colon => "Colon" | lparen => "LParen" | rparen => "RParen"
  | lbrace => "LBrace" | rbrace => "RBrace" | lbracket => "LBracket" | rbracket => "RBracket"
  | comma => "Comma" | semi => "Semi"

/-- The signs that one character begins, longer ones before those they begin with, each with the
characters that follow the first. -/
def startingWith : Char → List (List Char × Punct)
  | '+' => [(['+'], plusPlus), ([], plus)]
  | '-' => [(['-'], minusMinus), ([], minus)]
  | '*' => [([], star)]
  | '/' => [([], slash)]
  | '%' => [([], percent)]
  | '&' => [(['&'], andAnd), ([], amp)]
  | '|' => [(['|'], orOr), ([], pipe)]
  | '^' => [([], caret)]
  | '~' => [([], tilde)]
  | '!' => [(['=', '='], notEqEq), (['='], notEq), ([], bang)]
  | '=' => [(['=', '='], eqEqEq), (['='], eqEq), (['>'], arrow), ([], eq)]
  | '<' => [(['<'], shl), (['='], le), ([], lt)]
  | '>' => [(['>', '>'], ushr), (['>'], shr), (['='], ge), ([], gt)]
  | '.' => [(['.', '.'], ellipsis), ([], dot)]
  | '?' => [([], question)]
  | ':' => [([], colon)]
  | '(' => [([], lparen)]
  | ')' => [([], rparen)]
  | '{' => [([], lbrace)]
  | '}' => [([], rbrace)]
  | '[' => [([], lbracket)]
  | ']' => [([], rbracket)]
  | ',' => [([], comma)]
  | ';' => [([], semi)]
  | _ => []

end Punct

/-- The pieces of a template literal between its delimiters and substitutions. -/
inductive TemplatePart where
  | whole | head | middle | tail
  deriving DecidableEq, Repr, Inhabited

inductive TokenKind where
  | keyword (k : Keyword)
  | punct (p : Punct)
  | number (value : Double)
  | bigint (digits : String)
  | str (value : String)
  | ident (name : String)
  | regex (pattern flags : String)
  | template (part : TemplatePart) (cooked raw : String)
  | eof
  deriving DecidableEq, Repr, Inhabited

namespace TokenKind

/-- The name of the kind in messages. -/
def label : TokenKind → String
  | keyword k => k.label
  | punct p => p.label
  | number _ => "Number"
  | bigint _ => "BigInt"
  | str _ => "Str"
  | ident _ => "Ident"
  | regex _ _ => "Regex"
  | template .whole _ _ => "Template"
  | template .head _ _ => "TemplateHead"
  | template .middle _ _ => "TemplateMiddle"
  | template .tail _ _ => "TemplateTail"
  | eof => "Eof"

/-- Whether a slash behind this token begins a regular expression. Behind a token that can end an
operand it divides. -/
def allowsRegexAfter : TokenKind → Bool
  | ident _ | number _ | bigint _ | str _ | regex _ _ => false
  | template .whole _ _ | template .tail _ _ => false
  | keyword .true_ | keyword .false_ | keyword .null | keyword .this => false
  | punct .rparen | punct .rbracket | punct .rbrace => false
  | punct .plusPlus | punct .minusMinus => false
  | _ => true

end TokenKind

structure Token where
  kind : TokenKind
  pos : Position
  /-- A line feed stands between this token and the one before. -/
  newlineBefore : Bool
  deriving DecidableEq, Repr, Inhabited

end TagCheck
