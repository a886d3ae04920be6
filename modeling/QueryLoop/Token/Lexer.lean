import QueryLoop.Parsing.Recovery
import QueryLoop.Text.Blank
import QueryLoop.Text.Slice
import QueryLoop.Token

namespace QueryLoop.Token

open Parsing Parser

def charLexemes (offset : Nat) : List Char → List (Lexeme Char)
  | [] => []
  | c :: rest =>
      ⟨c, ⟨offset, offset + c.utf8Size⟩⟩ :: charLexemes (offset + c.utf8Size) rest

namespace Lexer

def exactly : List Char → Parser Char Unit
  | [] => pure ()
  | c :: rest => do token c; exactly rest

def dropBlanks : (rest : List (Lexeme Char)) → (cursor : Cursor Char) → Cursor Char
  | [], cursor => cursor
  | lexeme :: rest, cursor =>
      if Text.isBlank lexeme.token then
        dropBlanks rest ⟨rest, cursor.index + 1, lexeme.span.stop, cursor.inputStop⟩
      else cursor

def blanks : Parser Char Unit := fun cursor furthest =>
  .accepted () (dropBlanks cursor.rest cursor) [] furthest

/-- The end of a line: a carriage return takes a line feed behind it along. -/
def lineEnd : Parser Char Unit := fun cursor furthest =>
  match cursor.next? with
  | none => .rejected (Failure.merge furthest (cursor.refusal [.label "newline"]))
  | some (lexeme, after) =>
      if lexeme.token = '\r' then
        match after.next? with
        | some (following, behind) =>
            if following.token = '\n' then .accepted () behind [] furthest
            else .accepted () after [] furthest
        | none => .accepted () after [] furthest
      else if Text.isLineEnd lexeme.token then .accepted () after [] furthest
      else .rejected (Failure.merge furthest (cursor.refusal [.label "newline"]))

def lineStop : Parser Char Unit :=
  lineEnd <|> endOfInput

def lineComment : Parser Char Token := do
  exactly ['/', '/']
  let text ← many (andAlso anyToken (refuse lineStop))
  lineStop
  return .lineComment (String.ofList text)

def blockComment : Parser Char Token := do
  exactly ['/', '*']
  let text ← many (andAlso anyToken (refuse (exactly ['*', '/'])))
  exactly ['*', '/']
  return .blockComment (String.ofList text)

def digit : Parser Char Char :=
  satisfy "digit" Char.isDigit

def wholeNumber : Parser Char (List Char) :=
  (do
    let first ← satisfy "non-zero digit" fun c => c.isDigit && c != '0'
    let others ← many digit
    return first :: others) <|>
  (do
    token '0'
    return ['0'])

def float : Parser Char Token := do
  let whole ← wholeNumber
  token '.'
  let fraction ← many1 digit
  return .float (String.ofList (whole ++ '.' :: fraction))

def int : Parser Char Token := do
  let digits ← wholeNumber
  return .int (String.ofList digits)

def stringPart : Parser Char (List Char) :=
  (do
    let c ← noneOf ['\\', '"']
    return [c]) <|>
  (do
    token '\\'
    let escaped ← anyToken
    return ['\\', escaped])

def string : Parser Char Token := do
  let parts ← between (token '"') (token '"') (many stringPart)
  return .string (String.ofList parts.flatten)

def word : Parser Char Token := do
  let first ← satisfy "identifier" fun c => c.isAlpha || c == '_'
  let others ← many (satisfy "identifier" fun c => c.isAlphanum || c == '_')
  return .ofWord (String.ofList (first :: others))

/-- Signs of two characters, which are read before the ones of one character.
`>>` is none of them: it closes two lists of type arguments. -/
def longSigns : List (List Char × Token) :=
  [(['=', '>'], .arrow), (['=', '='], .sign .equal), (['!', '='], .sign .notEqual),
    (['<', '='], .sign .lessEqual), (['>', '='], .sign .greaterEqual), (['&', '&'], .sign .and),
    (['|', '|'], .sign .or)]

def shortSigns : List Char :=
  ['+', '-', '*', '/', '%', '<', '>', '!', '=', '&', '|', '?', ':']

def ofShortSign : Char → Token
  | '+' => .sign .plus
  | '-' => .sign .minus
  | '*' => .sign .times
  | '/' => .sign .divide
  | '%' => .sign .modulo
  | '<' => .sign .less
  | '>' => .sign .greater
  | '!' => .sign .not
  | '=' => .assign
  | c => .sign (.other c)

def anyOf : List (List Char × Token) → Parser Char Token → Parser Char Token
  | [], otherwise => otherwise
  | (chars, result) :: more, otherwise =>
      (do exactly chars; return result) <|> anyOf more otherwise

def operator : Parser Char Token :=
  anyOf longSigns (do
    let c ← oneOf shortSigns
    return ofShortSign c)

def separator : Parser Char Token := do
  let c ← oneOf [',', '.', ';']
  return match c with
    | ',' => .comma
    | '.' => .dot
    | _ => .semicolon

def bracket : Parser Char Token := do
  let c ← oneOf ['(', ')', '\x7b', '\x7d', '[', ']']
  return match c with
    | '(' => .parenOpen
    | ')' => .parenClose
    | '\x7b' => .braceOpen
    | '\x7d' => .braceClose
    | '[' => .bracketOpen
    | _ => .bracketClose

def one : Parser Char Token :=
  lineComment <|> blockComment <|> float <|> int <|> string <|> word <|> operator <|>
    separator <|> bracket

def lexeme : Parser Char (Lexeme Token) := do
  blanks
  let (token, span) ← spanned one
  blanks
  return ⟨token, span⟩

def lexemes : Parser Char (List (Lexeme Token)) := do
  blanks
  let found ← many (skipAndRetry lexeme)
  blanks
  return found

end Lexer

/-- The tokens of a source text, and what could not be read.  There are none when
reading stops at a character with no token behind it. -/
def lex (source : String) : Option (List (Lexeme Token)) × List (SyntaxError Char) :=
  let chars := source.toList
  Lexer.lexemes.run (charLexemes 0 chars) (Text.byteLength chars)

end QueryLoop.Token
