import WorkflowLens.Text.Identifier
import WorkflowLens.Text.Search

/-!
# Tokens of an expression

The text of an expression, its delimiters included, is cut into lexemes.  At each place the
longest lexeme is taken; a character that begins none, and a string literal that is never closed,
become error tokens, so no character is lost.

* `lexemeAt`: the kind and the text of the token at the beginning of a text.
* `tokenize`: all tokens with their byte offsets.
* `TokenKind.startsOperand`: the tokens after which a path may begin.
-/

namespace WorkflowLens.Expression

/-- The kinds of tokens. -/
inductive TokenKind where
  | opening | closing
  | blanks
  | identifier | number | string
  | dot | star | leftBracket | rightBracket | leftParen | rightParen | comma
  | equal | notEqual | and | or | lessEqual | greaterEqual | less | greater | not
  | error
  deriving DecidableEq, Repr

/-- A token: its kind, its text and the byte offset of its first character. -/
structure Token where
  kind : TokenKind
  text : Text
  offset : Nat
  deriving DecidableEq, Repr

/-- Whether a new path may begin after the token. -/
def TokenKind.startsOperand : TokenKind → Bool
  | .opening | .blanks | .leftParen | .leftBracket | .comma
  | .equal | .notEqual | .and | .or | .lessEqual | .greaterEqual | .less | .greater | .not => true
  | _ => false

/-! ## Lexemes -/

/-- A blank of an expression: space, tab or line end. -/
def isExpressionBlank (c : Char) : Bool :=
  c == ' ' || c == '\t' || c == '\r' || c == '\n'

/-- A character that begins an identifier. -/
def isIdentifierStart (c : Char) : Bool :=
  Text.isLetter c || c == '_'

/-- A character that goes on with an identifier. -/
def isIdentifierRest (c : Char) : Bool :=
  Text.isLetter c || Text.isDigit c || c == '_' || c == '-'

/-- The lexemes that are always the same characters, each before its own beginnings. -/
def fixedLexemes : List (TokenKind × Text) := [
  (.opening, ['$', '{', '{']), (.closing, ['}', '}']),
  (.equal, ['=', '=']), (.notEqual, ['!', '=']), (.and, ['&', '&']), (.or, ['|', '|']),
  (.lessEqual, ['<', '=']), (.greaterEqual, ['>', '=']),
  (.dot, ['.']), (.star, ['*']), (.leftBracket, ['[']), (.rightBracket, [']']),
  (.leftParen, ['(']), (.rightParen, [')']), (.comma, [',']),
  (.less, ['<']), (.greater, ['>']), (.not, ['!'])]

/-- A string literal from after its first quote: whether it is closed, and its characters up to
the closing quote.  Two quotes in a row stand for one inside the literal. -/
def literalBody : Text → Bool × Text
  | [] => (false, [])
  | '\x27' :: '\x27' :: t =>
    let (closed, body) := literalBody t
    (closed, '\x27' :: '\x27' :: body)
  | c :: t =>
    if c = '\x27' then (true, ['\x27'])
    else
      let (closed, body) := literalBody t
      (closed, c :: body)

/-- A number: digits, and a fraction if a digit follows the point. -/
def numberLexeme (t : Text) : Text :=
  let whole := t.takeWhile Text.isDigit
  match t.dropWhile Text.isDigit with
  | '.' :: rest =>
    match rest.takeWhile Text.isDigit with
    | [] => whole
    | fraction => whole ++ '.' :: fraction
  | _ => whole

/-- The kind and the text of the token that begins with `c` and goes on in `t`. -/
def lexemeAt (c : Char) (t : Text) : TokenKind × Text :=
  if isExpressionBlank c then (.blanks, c :: t.takeWhile isExpressionBlank)
  else if isIdentifierStart c then (.identifier, c :: t.takeWhile isIdentifierRest)
  else if Text.isDigit c then (.number, numberLexeme (c :: t))
  else if c = '\x27' then
    let (closed, body) := literalBody t
    (if closed then .string else .error, c :: body)
  else
    match fixedLexemes.find? fun (_, lexeme) => Text.startsWith lexeme (c :: t) with
    | some found => found
    | none => (.error, [c])

/-- The tokens of a text whose first character has the given byte offset, after `skip`
characters that belong to a token already read. -/
def tokensFrom : (offset skip : Nat) → Text → List Token
  | _, _, [] => []
  | offset, skip + 1, c :: t => tokensFrom (offset + c.utf8Size) skip t
  | offset, 0, c :: t =>
    let (kind, lexeme) := lexemeAt c t
    ⟨kind, lexeme, offset⟩ :: tokensFrom (offset + c.utf8Size) (lexeme.length - 1) t

/-- The tokens of a text. -/
def tokenize (t : Text) : List Token :=
  tokensFrom 0 0 t

end WorkflowLens.Expression
