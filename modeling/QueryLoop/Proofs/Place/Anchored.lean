import QueryLoop.Proofs.Place.Lookup

namespace QueryLoop

open Parsing Parser

namespace Text

/-- The offset lies between two characters, or at an end of the text. -/
def Boundary (chars : List Char) (offset : Nat) : Prop :=
  ∃ front back, chars = front ++ back ∧ byteLength front = offset

end Text

/-- What holds of each reading on its own lexemes holds of it on all of them. -/
theorem Parsing.Parser.Repeats.forall_mem {τ α : Type} {post : Post τ α}
    {used rest : List (Lexeme τ)} {values : List α} {errors : List (SyntaxError τ)}
    (holds : List (Lexeme τ) → α → Prop) (repeated : Repeats post used rest values errors)
    (mono : ∀ ⦃used more value⦄, holds used value → used <:+: more → holds more value)
    (each : ∀ used rest value errors, post used rest value errors → holds used value) :
    ∀ value ∈ values, holds used value := by
  induction repeated with
  | nil rest => simp
  | @cons used more rest value values errors others held following ih =>
      refine List.forall_mem_cons.mpr
        ⟨mono (each _ _ _ _ held) (List.prefix_append used more).isInfix, ?_⟩
      exact fun other listed => mono (ih other listed) (List.suffix_append used more).isInfix

namespace Token

/-- Characters start and end between characters. -/
theorem boundary_of_mem_charLexemes (front : List Char) {chars : List Char} {lexeme : Lexeme Char}
    (listed : lexeme ∈ charLexemes (Text.byteLength front) chars) :
    Text.Boundary (front ++ chars) lexeme.span.start ∧
      Text.Boundary (front ++ chars) lexeme.span.stop := by
  induction chars generalizing front with
  | nil => simp [charLexemes] at listed
  | cons c chars ih =>
      have behind : front ++ c :: chars = (front ++ [c]) ++ chars := by simp
      have size : Text.byteLength (front ++ [c]) = Text.byteLength front + c.utf8Size := by simp
      rcases List.mem_cons.mp listed with rfl | later
      · exact ⟨⟨front, c :: chars, rfl, rfl⟩, ⟨front ++ [c], chars, behind, size⟩⟩
      · rw [behind]
        exact ih (front ++ [c]) (size ▸ later)

/-- What holds of a token on the characters it is read from holds on all characters. -/
theorem Lexer.ensures_each {holds : List (Lexeme Char) → Lexeme Token → Prop}
    (single : Lexer.lexeme.Ensures fun used _ found _ => holds used found)
    (mono : ∀ ⦃used more found⦄, holds used found → used <:+: more → holds more found) :
    Lexer.lexemes.Ensures fun used _ found _ => ∀ lexeme ∈ found, holds used lexeme := by
  have step : (skipAndRetry Lexer.lexeme).Ensures fun used _ found _ =>
      holds used found ∧ used ≠ [] := by
    refine (single.and Lexer.lexeme_consumes).skipAndRetry.mono ?_
    rintro used rest found errors (held | ⟨dropped, own, error, rfl, -, held, nonempty⟩)
    · exact held
    · exact ⟨mono held (List.suffix_append dropped own).isInfix,
        List.append_ne_nil_of_right_ne_nil dropped nonempty⟩
  refine (Lexer.blanks_advances.bind fun _ => (step.many fun _ _ _ _ held => held.2).bind
    fun found => Lexer.blanks_advances.bind fun _ => ensures_pure found).mono ?_
  rintro used rest values errors ⟨front, _, _, _, _, rfl, -, -, own, _, found, _, _, rfl, -,
    ⟨repeated, -⟩, back, _, _, _, _, rfl, -, -, rfl, rfl, -⟩ lexeme listed
  have held : holds own lexeme :=
    repeated.forall_mem holds mono (fun _ _ _ _ held => held.1) lexeme listed
  exact mono held ⟨front, back, by simp⟩

/-- The tokens of a text start and end between characters. -/
theorem boundary_lex {source : String} {lexemes : List (Lexeme Token)}
    {errors : List (SyntaxError Char)} (read : lex source = (some lexemes, errors)) :
    ∀ lexeme ∈ lexemes, Text.Boundary source.toList lexeme.span.start ∧
      Text.Boundary source.toList lexeme.span.stop := by
  have single : Lexer.lexeme.Ensures fun used _ found _ => OnLexemes used found.span := by
    refine Lexer.lexeme_among.mono ?_
    rintro used rest found errors ⟨front, own, back, rfl, nonempty, covered, -⟩
    rw [covered]
    exact (onLexemes_spanOf nonempty).mono fun lexeme listed => by simp [listed]
  have ensured := Lexer.ensures_each single fun _ _ _ held part => held.mono part.subset
  intro lexeme listed
  obtain ⟨first, isFirst, last, isLast, same⟩ := ensured.run read lexeme listed
  rw [same]
  exact ⟨(boundary_of_mem_charLexemes [] isFirst).1,
    (boundary_of_mem_charLexemes [] isLast).2⟩

end Token

namespace SourceTree

/-- Whatever a source text looks like, the nodes of its tree start and end between
characters of it. -/
theorem boundary_parse (source : String) :
    ∀ node ∈ (parse source).1.nodes, Text.Boundary source.toList node.span.start ∧
      Text.Boundary source.toList node.span.stop := by
  intro node inside
  cases parse_cases source with
  | inl empty => simp [empty, nodes, Item.outlines, Outline.preorderAll] at inside
  | inr found =>
      obtain ⟨lexemes, lexical, errors, read, ran⟩ := found
      rw [nodes, Outline.preorderAll_eq_flatMap, List.mem_flatMap] at inside
      obtain ⟨outline, listed, inside⟩ := inside
      obtain ⟨first, isFirst, last, isLast, same⟩ :=
        (Grammar.lays_sourceTree.run ran).onLexemes outline listed node inside
      rw [same]
      exact ⟨(Token.boundary_lex read first (List.mem_filter.mp isFirst).1).1,
        (Token.boundary_lex read last (List.mem_filter.mp isLast).1).2⟩

end SourceTree

end QueryLoop
