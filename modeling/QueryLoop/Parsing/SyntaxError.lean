import QueryLoop.Parsing.Failure

namespace QueryLoop.Parsing

inductive Cause (τ : Type) where
  | unexpected (found : Option τ) (expected : List (Expected τ))
  | missingSemicolon
  | unrecognizedStatement
deriving Repr

structure SyntaxError (τ : Type) where
  span : Span
  cause : Cause τ
deriving Repr

def Failure.toError (failure : Failure τ) : SyntaxError τ where
  span := failure.span
  cause := .unexpected failure.found failure.expected

def Expected.render (text : τ → String) : Expected τ → String
  | .token wanted => "'" ++ text wanted ++ "'"
  | .label name => name
  | .somethingElse => "something else"
  | .anything => "any"
  | .endOfInput => "end of input"

def listWithOr : List String → String
  | [] => "something else"
  | [only] => only
  | items => ", ".intercalate items.dropLast ++ ", or " ++ items.getLastD ""

namespace Cause

def headline (text : τ → String) : Cause τ → String
  | .unexpected found _ => "unexpected " ++ (found.map text).getD "end of input"
  | .missingSemicolon => "expected `;`"
  | .unrecognizedStatement => "unrecognized statement"

/-- The wording of a report: the fact and everything that would have been
possible, in the order in which it was tried. -/
def message (text : τ → String) : Cause τ → String
  | .unexpected found expected =>
      (Cause.unexpected found expected).headline text ++ ", expected " ++
        ", ".intercalate (expected.map (Expected.render fun token => "'" ++ text token ++ "'"))
  | cause => cause.headline text

def display (text : τ → String) : Cause τ → String
  | .unexpected found expected =>
      "found " ++ (found.map fun token => "'" ++ text token ++ "'").getD "end of input" ++
        " expected " ++ listWithOr (expected.map (Expected.render text))
  | cause => cause.headline text

end Cause

end QueryLoop.Parsing
