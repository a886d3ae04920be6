import QueryLoop.Document
import QueryLoop.Proofs.Place.Anchored
import QueryLoop.Proofs.Printing.Words
import QueryLoop.Proofs.Reading.Quiet
import QueryLoop.Proofs.Spelling.Located

namespace QueryLoop

namespace Token.Lexer

open Parsing Parser

theorem exactly_quiet : ∀ chars, (exactly chars).Quiet
  | [] => .pure ()
  | c :: rest => .bind (.token c) fun _ => exactly_quiet rest

theorem lineStop_quiet : lineStop.Quiet := by
  refine .orElse (fun cursor furthest value after errors furthest' accepted => ?_) .endOfInput
  unfold lineEnd at accepted
  repeat' split at accepted
  all_goals cases accepted
  all_goals rfl

theorem wholeNumber_quiet : wholeNumber.Quiet :=
  .orElse (.bind (.satisfy _ _) fun _ => .bind (.many (.satisfy _ _)) fun _ => .pure _)
    (.bind (.token _) fun _ => .pure _)

theorem anyOf_quiet {otherwise : Parser Char Token} (last : otherwise.Quiet) :
    ∀ signs, (anyOf signs otherwise).Quiet
  | [] => last
  | (chars, _) :: signs =>
      .orElse (.bind (exactly_quiet chars) fun _ => .pure _) (anyOf_quiet last signs)

theorem stringPart_quiet : stringPart.Quiet :=
  .orElse (.bind (.select _ _) fun _ => .pure _)
    (.bind (.token _) fun _ => .bind (.select _ _) fun _ => .pure _)

theorem one_quiet : one.Quiet := by
  refine .orElse ?_ (.orElse ?_ (.orElse ?_ (.orElse ?_ (.orElse ?_ (.orElse ?_ (.orElse ?_
    (.orElse ?_ ?_)))))))
  · exact .bind (exactly_quiet _) fun _ => .bind (.many (.andAlso (.select _ _))) fun _ =>
      .bind lineStop_quiet fun _ => .pure _
  · exact .bind (exactly_quiet _) fun _ => .bind (.many (.andAlso (.select _ _))) fun _ =>
      .bind (exactly_quiet _) fun _ => .pure _
  · exact .bind wholeNumber_quiet fun _ => .bind (.token _) fun _ =>
      .bind (.bind (.satisfy _ _) fun _ => .bind (.many (.satisfy _ _)) fun _ => .pure _) fun _ =>
        .pure _
  · exact .bind wholeNumber_quiet fun _ => .pure _
  · exact .bind (.bind (.token _) fun _ => .bind (.many stringPart_quiet) fun _ =>
      .bind (.token _) fun _ => .pure _) fun _ => .pure _
  · exact .bind (.satisfy _ _) fun _ => .bind (.many (.satisfy _ _)) fun _ => .pure _
  · exact anyOf_quiet (.bind (.select _ _) fun _ => .pure _) _
  · exact .bind (.select _ _) fun _ => .pure _
  · exact .bind (.select _ _) fun _ => .pure _

/-- A token is spelled by some of the characters, and its span is theirs. -/
def LaidIn (used : List (Lexeme Char)) (found : Lexeme Token) : Prop :=
  ∃ own rest, own <:+: used ∧ own ≠ [] ∧ found.span = spanOf own ∧
    Spelled found.token (own.map Lexeme.token) rest

theorem LaidIn.mono {used more : List (Lexeme Char)} {found : Lexeme Token}
    (laid : LaidIn used found) (inside : used <:+: more) : LaidIn more found := by
  obtain ⟨own, rest, part, laid⟩ := laid
  exact ⟨own, rest, part.trans inside, laid⟩

theorem ensures_lexeme : lexeme.Ensures fun used _ found _ => LaidIn used found := by
  have spelled := (reads_one.ensures one_quiet).and one_consumes
  refine (blanks_advances.bind fun _ => spelled.spanned.bind fun found =>
    blanks_advances.bind fun _ => ensures_pure (⟨found.1, found.2⟩ : Lexeme Token)).mono ?_
  rintro used rest value errors ⟨front, _, _, _, _, rfl, -, -, own, _, found, _, _, rfl, -,
    ⟨⟨spelled, nonempty⟩, covered⟩, back, _, _, _, _, rfl, -, -, rfl, rfl, -⟩
  exact ⟨own, _, ⟨front, back, by simp⟩, nonempty, covered nonempty, spelled⟩

end Token.Lexer

namespace Token

open Parsing Lexer

/-- What is written between two texts is what is under its span. -/
theorem textAt?_of_split {source : String} {front own back : List Char}
    (split : source.toList = front ++ (own ++ back)) :
    textAt? source ⟨Text.byteLength front, Text.byteLength front + Text.byteLength own⟩ =
      some (String.ofList own) := by
  simp [textAt?, split, Text.slice?, Text.splitBytes?_append]

/-- The end of one line. -/
def NewLine (ending : List Char) : Prop :=
  ending = ['\r', '\n'] ∨ ∃ c, ending = [c] ∧ Text.isLineEnd c = true

/-- The text of the token, and behind a line comment possibly the end of its line. -/
def WrittenAs (token : Token) (text : String) : Prop :=
  ∃ ending, text = token.text ++ String.ofList ending ∧
    (ending = [] ∨ (∃ content, token = .lineComment content) ∧ NewLine ending)

theorem Lexer.Spelled.writtenAs {token : Token} {written rest : List Char}
    (spelled : Spelled token written rest) : token.WrittenAs (String.ofList written) := by
  obtain ⟨ending, rfl, ends⟩ := spelled.exists_ending
  refine ⟨ending, by simp, ?_⟩
  rcases ends with nothing | ⟨isComment, pair | ⟨c, single, isEnd, -⟩ | ⟨nothing, -⟩⟩
  · exact .inl nothing
  · exact .inr ⟨isComment, .inl pair⟩
  · exact .inr ⟨isComment, .inr ⟨c, single, isEnd⟩⟩
  · exact .inl nothing

theorem textAt?_of_laidIn {source : String} {lexeme : Lexeme Token}
    (laid : LaidIn (charLexemes 0 source.toList) lexeme) :
    ∃ text, textAt? source lexeme.span = some text ∧ lexeme.token.WrittenAs text := by
  obtain ⟨own, rest, ⟨front, back, split⟩, nonempty, place, spelled⟩ := laid
  rw [List.append_assoc] at split
  obtain ⟨before, others, shape, -, placed⟩ := split_charLexemes split.symm
  obtain ⟨written, behind, rfl, rfl, -⟩ := split_charLexemes placed.symm
  rw [map_token_charLexemes] at spelled
  have some_written : written ≠ [] := by
    rintro rfl
    exact nonempty rfl
  refine ⟨_, ?_, spelled.writtenAs⟩
  rw [place, spanOf_charLexemes _ some_written, Nat.zero_add, textAt?_of_split shape]

/-- Where nothing is reported, a character outside all spans is a blank. -/
theorem Located.isBlank_of_outside {offset : Nat} {front rest : List Char}
    {lexemes : List (Lexeme Token)} (located : Located offset front lexemes rest)
    {before behind : List Char} {c : Char} (split : front = before ++ c :: behind)
    (outside : ∀ lexeme ∈ lexemes, ¬(lexeme.span.start ≤ offset + Text.byteLength before ∧
      offset + Text.byteLength before < lexeme.span.stop)) : Text.isBlank c = true := by
  induction located generalizing before with
  | nil => simp at split
  | @blank offset d front rest lexemes isBlank following ih =>
      cases before with
      | nil =>
          obtain ⟨rfl, -⟩ := List.cons.inj split
          exact isBlank
      | cons d before =>
          obtain ⟨rfl, others⟩ := List.cons.inj split
          refine ih others ?_
          simpa only [Text.byteLength_cons, ← Nat.add_assoc] using outside
  | @token offset token written front rest lexemes spelled following ih =>
      obtain ⟨own, others⟩ := List.forall_mem_cons.mp outside
      rcases List.append_eq_append_iff.mp split with ⟨more, rfl, behind_eq⟩ | ⟨more, rfl, behind_eq⟩
      · refine ih behind_eq ?_
        simpa only [Text.byteLength_append, ← Nat.add_assoc] using others
      · cases more with
        | nil =>
            refine ih (show _ = [] ++ _ from behind_eq.symm) ?_
            simpa using others
        | cons d more =>
            -- the character would be one of the token
            refine absurd ⟨Nat.le_add_right _ _, ?_⟩ own
            have positive := d.utf8Size_pos
            simp only [Text.byteLength_append, Text.byteLength_cons]
            omega

/-- Every token is written at its span, the spans lie one behind the other, and where nothing is
reported the rest of the text is blank. -/
theorem lex_lossless {source : String} {lexemes : List (Lexeme Token)}
    {errors : List (SyntaxError Char)} (read : lex source = (some lexemes, errors)) :
    (∀ lexeme ∈ lexemes, lexeme.span.start < lexeme.span.stop) ∧
      lexemes.Pairwise (fun first second => first.span.Before second.span) ∧
      (∀ lexeme ∈ lexemes,
        ∃ text, textAt? source lexeme.span = some text ∧ lexeme.token.WrittenAs text) ∧
      (errors = [] → ∀ before c behind, source.toList = before ++ c :: behind →
        (∀ lexeme ∈ lexemes, ¬(lexeme.span.start ≤ Text.byteLength before ∧
          Text.byteLength before < lexeme.span.stop)) →
        Text.isBlank c = true) := by
  have spread := spread_lex read
  have laid := ensures_each ensures_lexeme fun _ _ _ => LaidIn.mono
  refine ⟨fun lexeme listed => (spread.within_of_mem listed).2.1, spread.pairwise, ?_, ?_⟩
  · exact fun lexeme listed => textAt?_of_laidIn (laid.run read lexeme listed)
  · rintro rfl before c behind split outside
    exact (located_lex read).isBlank_of_outside split (by simpa using outside)

/-- The span of the comment takes the end of its line along. -/
theorem lex_lossless_comment :
    let source := "a // b\r\n= 1"
    ∃ lexemes, lex source = (some lexemes, []) ∧
      lexemes.Pairwise (fun first second => first.span.Before second.span) ∧
      ∀ lexeme ∈ lexemes,
        ∃ text, textAt? source lexeme.span = some text ∧ lexeme.token.WrittenAs text := by
  intro source
  have read : lex source = (some [⟨.ident "a", ⟨0, 1⟩⟩, ⟨.lineComment " b", ⟨2, 8⟩⟩,
      ⟨.assign, ⟨8, 9⟩⟩, ⟨.int "1", ⟨10, 11⟩⟩], []) :=
    Prod.ext (by decide +kernel) (List.isEmpty_iff.mp (by decide +kernel))
  obtain ⟨-, ordered, written, -⟩ := lex_lossless read
  exact ⟨_, read, ordered, written⟩

end Token

end QueryLoop
