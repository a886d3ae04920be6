import QueryLoop.Operator
import QueryLoop.Parsing.Parser

namespace QueryLoop

inductive Keyword where
  | usingWord
  | namespaceWord
  | classWord
  | foreachWord
  | inWord
  | ifWord
  | elseWord
  | whileWord
  | continueWord
  | breakWord
  | returnWord
  | newWord
  | trueWord
  | falseWord
  | nullWord
deriving DecidableEq, Repr, Inhabited

namespace Keyword

def text : Keyword → String
  | usingWord => "using"
  | namespaceWord => "namespace"
  | classWord => "class"
  | foreachWord => "foreach"
  | inWord => "in"
  | ifWord => "if"
  | elseWord => "else"
  | whileWord => "while"
  | continueWord => "continue"
  | breakWord => "break"
  | returnWord => "return"
  | newWord => "new"
  | trueWord => "true"
  | falseWord => "false"
  | nullWord => "null"

def all : List Keyword :=
  [usingWord, namespaceWord, classWord, foreachWord, inWord, ifWord, elseWord, whileWord,
    continueWord, breakWord, returnWord, newWord, trueWord, falseWord, nullWord]

def ofText? (word : String) : Option Keyword :=
  all.find? (·.text = word)

end Keyword

/-- The words that are declaration modifiers; all other words that are no
keywords are names. -/
def modifierWords : List String :=
  ["public", "private", "protected", "internal", "static", "readonly", "sealed", "abstract",
    "virtual", "override", "async"]

inductive Token where
  | ident (name : String)
  | modifier (word : String)
  | int (digits : String)
  | float (digits : String)
  /-- The text between the quotes, escapes as written. -/
  | string (content : String)
  | keyword (word : Keyword)
  | sign (operator : Sign)
  | assign
  | arrow
  | comma
  | dot
  | semicolon
  | parenOpen
  | parenClose
  | bracketOpen
  | bracketClose
  | braceOpen
  | braceClose
  | lineComment (content : String)
  | blockComment (content : String)
deriving DecidableEq, Repr, Inhabited

namespace Token

def text : Token → String
  | ident name => name
  | modifier word => word
  | int digits => digits
  | float digits => digits
  | string content => "\"" ++ content ++ "\""
  | keyword word => word.text
  | sign operator => operator.text
  | assign => "="
  | arrow => "=>"
  | comma => ","
  | dot => "."
  | semicolon => ";"
  | parenOpen => "("
  | parenClose => ")"
  | bracketOpen => "["
  | bracketClose => "]"
  | braceOpen => "\x7b"
  | braceClose => "\x7d"
  | lineComment content => "//" ++ content
  | blockComment content => "/*" ++ content ++ "*/"

def isComment : Token → Bool
  | lineComment _ => true
  | blockComment _ => true
  | _ => false

def ofWord (word : String) : Token :=
  match Keyword.ofText? word with
  | some known => keyword known
  | none => if word ∈ modifierWords then modifier word else ident word

end Token

end QueryLoop
