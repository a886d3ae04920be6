import QueryLoop.Parsing.SyntaxError
import QueryLoop.Token

namespace QueryLoop

open Parsing

inductive Problem where
  | lexical (error : SyntaxError Char)
  | grammatical (error : SyntaxError Token)
deriving Repr

namespace Problem

def span : Problem → Span
  | lexical error => error.span
  | grammatical error => error.span

def headline : Problem → String
  | lexical error => error.cause.headline Char.toString
  | grammatical error => error.cause.headline Token.text

def message : Problem → String
  | lexical error => error.cause.message Char.toString
  | grammatical error => error.cause.message Token.text

def display : Problem → String
  | lexical error => error.cause.display Char.toString
  | grammatical error => error.cause.display Token.text

/-- A report shows a place only if it does not end before it starts. -/
def isDrawable (problem : Problem) : Bool :=
  decide (problem.span.start ≤ problem.span.stop)

/-- Problems that look the same in a report are counted once. -/
def countDistinct : List Problem → Nat
  | [] => 0
  | problem :: problems =>
      countDistinct problems +
        if problems.any fun other =>
          other.span = problem.span && other.message = problem.message
        then 0 else 1

def dump (problems : List Problem) : String :=
  String.join (problems.map fun problem => problem.message ++ "\n")

end Problem

end QueryLoop
