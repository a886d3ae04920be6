import QueryLoop.Proofs.Spelling.Scanning

namespace QueryLoop.Token

open Parsing Parser Lexer

/-- From the offset on, `front` is read as the lexemes where `rest` follows it. -/
inductive Located : (offset : Nat) → (front : List Char) → (lexemes : List (Lexeme Token)) →
    (rest : List Char) → Prop
  | nil (offset : Nat) (rest : List Char) : Located offset [] [] rest
  | blank {offset : Nat} {c : Char} {front rest : List Char} {lexemes : List (Lexeme Token)}
      (isBlank : Text.isBlank c = true)
      (following : Located (offset + c.utf8Size) front lexemes rest) :
      Located offset (c :: front) lexemes rest
  | token {offset : Nat} {token : Token} {written front rest : List Char}
      {lexemes : List (Lexeme Token)} (spelled : Spelled token written (front ++ rest))
      (following : Located (offset + Text.byteLength written) front lexemes rest) :
      Located offset (written ++ front)
        (⟨token, ⟨offset, offset + Text.byteLength written⟩⟩ :: lexemes) rest

namespace Located

variable {offset : Nat} {front back rest : List Char} {lexemes more : List (Lexeme Token)}

theorem append (first : Located offset front lexemes (back ++ rest))
    (second : Located (offset + Text.byteLength front) back more rest) :
    Located offset (front ++ back) (lexemes ++ more) rest := by
  generalize same : back ++ rest = behind at first
  induction first with
  | nil offset _ => exact second
  | blank isBlank _ ih =>
      refine .blank isBlank (ih ?_ same)
      rwa [Text.byteLength_cons, ← Nat.add_assoc] at second
  | token spelled _ ih =>
      subst same
      rw [List.append_assoc]
      refine .token (by rwa [List.append_assoc]) (ih ?_ rfl)
      rwa [Text.byteLength_append, ← Nat.add_assoc] at second

theorem blanks (allBlank : ∀ c ∈ front, Text.isBlank c = true) : Located offset front [] rest := by
  induction front generalizing offset with
  | nil => exact .nil offset rest
  | cons c front ih =>
      obtain ⟨isBlank, others⟩ := List.forall_mem_cons.mp allBlank
      exact .blank isBlank (ih others)

theorem single {token : Token} (spelled : Spelled token front rest) :
    Located offset front [⟨token, ⟨offset, offset + Text.byteLength front⟩⟩] rest := by
  have whole : Located offset (front ++ []) _ rest :=
    .token (show Spelled token front ([] ++ rest) from spelled) (.nil _ rest)
  rwa [List.append_nil] at whole

theorem scans (located : Located offset front lexemes rest) :
    Scans front (lexemes.map Lexeme.token) rest := by
  induction located with
  | nil offset rest => exact .nil rest
  | blank isBlank _ ih => exact .blank isBlank ih
  | token spelled _ ih => exact .token spelled ih

end Located

theorem charLexemes_append (offset : Nat) (front back : List Char) :
    charLexemes offset (front ++ back) =
      charLexemes offset front ++ charLexemes (offset + Text.byteLength front) back := by
  induction front generalizing offset with
  | nil => rfl
  | cons c front ih => simp [charLexemes, ih, Text.byteLength_cons, Nat.add_assoc]

theorem split_charLexemes {offset : Nat} {chars : List Char} {used more : List (Lexeme Char)}
    (split : charLexemes offset chars = used ++ more) : ∃ front back, chars = front ++ back ∧
      used = charLexemes offset front ∧
        more = charLexemes (offset + Text.byteLength front) back := by
  have lengths : ∀ offset chars, (charLexemes offset chars).length = chars.length := fun offset chars => by
    rw [← List.length_map Lexeme.token, map_token_charLexemes]
  refine ⟨chars.take used.length, chars.drop used.length, (List.take_append_drop _ _).symm, ?_⟩
  rw [← List.take_append_drop used.length chars, charLexemes_append] at split
  have short : used.length ≤ chars.length := by
    rw [← lengths offset chars, ← List.take_append_drop used.length chars, charLexemes_append, split]
    simp
  have sameLength : (charLexemes offset (chars.take used.length)).length = used.length := by
    rw [lengths, List.length_take]
    omega
  obtain ⟨same, same'⟩ := List.append_inj split sameLength
  exact ⟨same.symm, same'.symm⟩

theorem spanOf_charLexemes (offset : Nat) {chars : List Char} (nonempty : chars ≠ []) :
    spanOf (charLexemes offset chars) = ⟨offset, offset + Text.byteLength chars⟩ := by
  have last : ∀ (chars : List Char) (offset stop : Nat), chars ≠ [] →
      (charLexemes offset chars).foldl (fun _ lexeme => lexeme.span.stop) stop =
        offset + Text.byteLength chars := by
    intro chars
    induction chars with
    | nil => exact fun offset stop nonempty => absurd rfl nonempty
    | cons c chars ih =>
        intro offset stop _
        rw [charLexemes, List.foldl_cons, Text.byteLength_cons]
        cases chars with
        | nil => rfl
        | cons d chars =>
            rw [ih _ _ (List.cons_ne_nil _ _)]
            omega
  cases chars with
  | nil => exact absurd rfl nonempty
  | cons c chars =>
      rw [spanOf, last _ _ _ nonempty]
      rfl

/-- What was read, wherever it stands, is located there. -/
def LocatedWhere : CleanPost Char (List (Lexeme Token)) := fun used rest found =>
  ∀ offset chars, used = charLexemes offset chars →
    Located offset chars found (rest.map Lexeme.token)

theorem LocatedWhere.append {used more rest : List (Lexeme Char)}
    {found others : List (Lexeme Token)} (first : LocatedWhere used (more ++ rest) found)
    (second : LocatedWhere more rest others) : LocatedWhere (used ++ more) rest (found ++ others) := by
  intro offset chars placed
  obtain ⟨front, back, rfl, rfl, rfl⟩ := split_charLexemes placed.symm
  have located := first offset front rfl
  rw [List.map_append, map_token_charLexemes] at located
  exact located.append (second _ back rfl)

theorem reads_blanks : Lexer.blanks.Reads fun used rest _ => LocatedWhere used rest [] := by
  refine (reads_of_ensures ensures_blanks).mono ?_
  rintro used rest _ ⟨allBlank, -⟩ offset chars rfl
  refine .blanks fun c listed => ?_
  rw [← map_token_charLexemes offset chars] at listed
  obtain ⟨lexeme, isRead, rfl⟩ := List.mem_map.mp listed
  exact allBlank lexeme isRead

theorem reads_spanned_one : (spanned one).Reads fun used rest found =>
    LocatedWhere used rest [⟨found.1, found.2⟩] := by
  refine reads_one.spanned.mono ?_
  rintro used rest ⟨token, span⟩ ⟨spelled, covered⟩ offset chars rfl
  rw [map_token_charLexemes] at spelled
  obtain ⟨c, others, rfl, -⟩ := spelled.starts
  obtain rfl : span = _ := (covered (List.cons_ne_nil _ _)).trans
    (spanOf_charLexemes offset (List.cons_ne_nil c others))
  exact .single spelled

theorem reads_lexeme : Lexer.lexeme.Reads fun used rest found => LocatedWhere used rest [found] := by
  refine (reads_blanks.bind fun _ => reads_spanned_one.bind fun found => reads_blanks.bind fun _ =>
    reads_pure (⟨found.1, found.2⟩ : Lexeme Token)).mono ?_
  rintro used rest _ ⟨lead, _, _, rfl, leading, own, _, found, rfl, held, trail, _, _, rfl, trailing,
    rfl, rfl⟩
  rw [List.append_nil] at *
  exact leading.append (held.append trailing)

theorem locatedWhere_of_series {used rest : List (Lexeme Char)} {found : List (Lexeme Token)}
    (series : Series (fun used rest found => LocatedWhere used rest [found]) used rest found) :
    LocatedWhere used rest found := by
  induction series with
  | nil rest =>
      intro offset chars placed
      cases chars with
      | nil => exact .nil offset _
      | cons c chars => cases placed
  | cons held following ih => exact held.append ih

/-- A text that is read without problems is blanks and tokens, each at its span. -/
theorem located_lex {source : String} {lexemes : List (Lexeme Token)}
    (read : lex source = (some lexemes, [])) : Located 0 source.toList lexemes [] := by
  have consumes : (skipAndRetry Lexer.lexeme).Ensures Consumes := by
    refine lexeme_consumes.skipAndRetry.mono ?_
    rintro used rest value errors (held | ⟨dropped, own, error, rfl, -, held⟩)
    · exact held
    · exact List.append_ne_nil_of_right_ne_nil dropped held
  have reads : Lexer.lexemes.Reads LocatedWhere := by
    refine (reads_blanks.bind fun _ => (reads_lexeme.skipAndRetry.many consumes).bind fun found =>
      reads_blanks.bind fun _ => reads_pure found).mono ?_
    rintro used rest _ ⟨lead, _, _, rfl, leading, own, _, found, rfl, ⟨series, -⟩, trail, _, _, rfl,
      trailing, rfl, rfl⟩
    rw [List.append_nil] at *
    have whole := leading.append ((locatedWhere_of_series series).append trailing)
    rwa [List.append_nil] at whole
  exact reads.run read 0 source.toList rfl

end QueryLoop.Token
