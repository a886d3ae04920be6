import QueryLoop.Grammar.Item
import QueryLoop.Problem

namespace QueryLoop

open Parsing

namespace SourceTree

def ofLexemes (lexemes : List (Lexeme Token)) (stop : Nat) :
    SourceTree × List (SyntaxError Token) :=
  let (tree, errors) := Grammar.sourceTree.run lexemes stop
  (tree.getD ⟨[]⟩, errors)

/-- The tree of a source text and everything that is wrong with the text.  There
is always a tree: what cannot be read is skipped or becomes an error node. -/
def parse (source : String) : SourceTree × List Problem :=
  let (lexemes, lexical) := Token.lex source
  match lexemes with
  | none => (⟨[]⟩, lexical.map .lexical)
  | some lexemes =>
      let (tree, grammatical) := ofLexemes
        (lexemes.filter fun lexeme => !lexeme.token.isComment)
        (Text.byteLength source.toList)
      (tree, lexical.map .lexical ++ grammatical.map .grammatical)

end SourceTree

end QueryLoop
