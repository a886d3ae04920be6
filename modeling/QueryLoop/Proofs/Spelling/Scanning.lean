import QueryLoop.Proofs.Spelling.Lexical

namespace QueryLoop.Token

open Parsing Parser Lexer

/-- `front` is read as the tokens where `rest` follows it. -/
inductive Scans : (front : List Char) → (tokens : List Token) → (rest : List Char) → Prop
  | nil (rest : List Char) : Scans [] [] rest
  | blank {c : Char} {front rest : List Char} {tokens : List Token}
      (isBlank : Text.isBlank c = true) (following : Scans front tokens rest) :
      Scans (c :: front) tokens rest
  | token {token : Token} {written front rest : List Char} {tokens : List Token}
      (spelled : Spelled token written (front ++ rest)) (following : Scans front tokens rest) :
      Scans (written ++ front) (token :: tokens) rest

namespace Scans

variable {front back rest : List Char} {tokens more : List Token}

theorem append (first : Scans front tokens (back ++ rest)) (second : Scans back more rest) :
    Scans (front ++ back) (tokens ++ more) rest := by
  generalize same : back ++ rest = behind at first
  induction first with
  | nil _ => exact second
  | blank isBlank _ ih => exact .blank isBlank (ih same)
  | token spelled _ ih =>
      subst same
      rw [List.append_assoc]
      exact .token (by rwa [List.append_assoc]) (ih rfl)

theorem blanks {chars : List Char} (allBlank : ∀ c ∈ chars, Text.isBlank c = true) :
    Scans chars [] rest := by
  induction chars with
  | nil => exact .nil rest
  | cons c chars ih =>
      obtain ⟨isBlank, others⟩ := List.forall_mem_cons.mp allBlank
      exact .blank isBlank (ih others)

theorem single {token : Token} {written : List Char} (spelled : Spelled token written rest) :
    Scans written [token] rest := by
  have whole := Scans.token (show Spelled token written ([] ++ rest) from spelled) (.nil rest)
  rwa [List.append_nil] at whole

end Scans

/-- A token as it is written, and the blanks behind it. -/
structure Stretch where
  token : Token
  written : List Char
  blanks : List Char

def Stretch.chars (stretch : Stretch) : List Char :=
  stretch.written ++ stretch.blanks

theorem not_isBlank_of_visible {c : Char} (visible : 33 ≤ c.toNat ∧ c.toNat ≤ 126) :
    Text.isBlank c = false := by
  simp only [Text.isBlank, Bool.or_eq_false_iff, Bool.and_eq_false_iff, decide_eq_false_iff_not,
    beq_eq_false_iff_ne, ne_eq]
  omega

theorem not_isBlank_of_isWordPart {c : Char} (isPart : isWordPart c = true) :
    Text.isBlank c = false := by
  have code : c.toNat = c.val.toNat := rfl
  simp only [isWordPart, Char.isAlphanum, Bool.or_eq_true, isAlpha_iff, Char.isDigit,
    Bool.and_eq_true, decide_eq_true_eq, beq_iff_eq, UInt32.le_iff_toNat_le, ge_iff_le] at isPart
  refine not_isBlank_of_visible ?_
  rcases isPart with ((upper | lower) | digit) | rfl
  · have low : 'A'.val.toNat = 65 := rfl
    have high : 'Z'.val.toNat = 90 := rfl
    omega
  · have low : 'a'.val.toNat = 97 := rfl
    have high : 'z'.val.toNat = 122 := rfl
    omega
  · have low : '0'.val.toNat = 48 := rfl
    have high : '9'.val.toNat = 57 := rfl
    omega
  · decide

theorem not_isBlank_of_whole {digits : List Char} (whole : Whole digits) :
    ∃ c others, digits = c :: others ∧ Text.isBlank c = false := by
  rcases whole with ⟨c, others, rfl, isDigit, -⟩ | rfl
  · exact ⟨c, others, rfl, not_isBlank_of_isWordPart (by simp [isWordPart, Char.isAlphanum, isDigit])⟩
  · exact ⟨'0', [], rfl, by decide⟩

theorem Lexer.Spelled.starts {token : Token} {written rest : List Char}
    (spelled : Spelled token written rest) :
    ∃ c others, written = c :: others ∧ Text.isBlank c = false := by
  have signs : ∀ c ∈ shortSigns ++ separators ++ brackets, Text.isBlank c = false :=
    List.all_iff_forall_prop.mp (by decide)
  cases spelled with
  | word starts goesOn ends =>
      refine ⟨_, _, rfl, not_isBlank_of_isWordPart ?_⟩
      simp only [isWordStart, Bool.or_eq_true] at starts
      rcases starts with isAlpha | isLine
      · simp [isWordPart, Char.isAlphanum, isAlpha]
      · simp [isWordPart, isLine]
  | int whole ends noFraction => exact not_isBlank_of_whole whole
  | float whole nonempty allDigits ends =>
      obtain ⟨c, others, rfl, noBlank⟩ := not_isBlank_of_whole whole
      exact ⟨c, _, rfl, noBlank⟩
  | string each => exact ⟨_, _, rfl, by decide⟩
  | longSign listed =>
      have starts : ∀ sign ∈ longSigns, sign.1.head?.any (!Text.isBlank ·) = true := by decide
      obtain ⟨c, isHead, noBlank⟩ := (Option.any_eq_true _ _).mp (starts _ listed)
      obtain ⟨others, shape⟩ := List.head?_eq_some_iff.mp isHead
      exact ⟨c, others, shape, by simpa using noBlank⟩
  | shortSign listed short noComment => exact ⟨_, _, rfl, signs _ (by simp [listed])⟩
  | separator listed => exact ⟨_, _, rfl, signs _ (by simp [listed])⟩
  | bracket listed => exact ⟨_, _, rfl, signs _ (by simp [listed])⟩
  | lineComment plain ends => exact ⟨_, _, rfl, by decide⟩
  | blockComment plain => exact ⟨_, _, rfl, by decide⟩

/-- Every blank stands at the start or behind a token. -/
theorem Scans.stretches {front rest : List Char} {tokens : List Token}
    (scans : Scans front tokens rest) : ∃ lead stretches,
      front = lead ++ stretches.flatMap Stretch.chars ∧
        (∀ c ∈ lead, Text.isBlank c = true) ∧
        (∀ stretch ∈ stretches, ∀ c ∈ stretch.blanks, Text.isBlank c = true) ∧
        tokens = stretches.map Stretch.token ∧
        ∀ before stretch behind, stretches = before ++ stretch :: behind →
          Spelled stretch.token stretch.written
            (stretch.blanks ++ (behind.flatMap Stretch.chars ++ rest)) := by
  induction scans with
  | nil rest => exact ⟨[], [], rfl, by simp, by simp, rfl, by simp⟩
  | blank isBlank _ ih =>
      obtain ⟨lead, stretches, rfl, leading, trailing, rfl, spelled⟩ := ih
      exact ⟨_ :: lead, stretches, rfl, List.forall_mem_cons.mpr ⟨isBlank, leading⟩, trailing, rfl,
        spelled⟩
  | @token token written front rest tokens spelled _ ih =>
      obtain ⟨lead, stretches, rfl, leading, trailing, rfl, others⟩ := ih
      refine ⟨[], ⟨token, written, lead⟩ :: stretches, ?_, by simp,
        List.forall_mem_cons.mpr ⟨leading, trailing⟩, rfl, ?_⟩
      · simp [Stretch.chars]
      · intro before stretch behind split
        cases before with
        | nil =>
            obtain ⟨rfl, rfl⟩ := List.cons.inj split
            simpa using spelled
        | cons first before =>
            obtain ⟨-, rfl⟩ := List.cons.inj split
            exact others before stretch behind rfl

namespace Lexer

theorem yields_blanks {front rest : List Char} (allBlank : ∀ c ∈ front, Text.isBlank c = true)
    (ends : ∀ c ∈ rest.head?, Text.isBlank c = false) : blanks.Yields front rest fun _ => True := by
  intro cursor furthest used tail split spelled following
  refine ⟨(), dropBlanks cursor.rest cursor, furthest, rfl, ?_, trivial⟩
  have dropped : ∀ (rest : List (Lexeme Char)) (cursor : Cursor Char), cursor.rest = rest →
      (dropBlanks rest cursor).rest = rest.dropWhile fun lexeme => Text.isBlank lexeme.token := by
    intro rest
    induction rest with
    | nil => exact fun cursor same => same
    | cons lexeme rest ih =>
        intro cursor same
        rw [dropBlanks, List.dropWhile_cons]
        split
        · exact ih _ rfl
        · exact same
  rw [dropped _ _ rfl, split]
  have allTaken : ∀ lexeme ∈ used, Text.isBlank lexeme.token = true := by
    intro lexeme listed
    exact allBlank _ (by rw [← spelled]; exact List.mem_map_of_mem listed)
  rw [List.dropWhile_append_of_pos allTaken]
  cases tail with
  | nil => rfl
  | cons lexeme tail =>
      have noBlank := ends lexeme.token (by rw [← following]; rfl)
      simp [noBlank]

theorem yields_lexeme {stretch : Stretch} {rest : List Char}
    (spelled : Spelled stretch.token stretch.written (stretch.blanks ++ rest))
    (allBlank : ∀ c ∈ stretch.blanks, Text.isBlank c = true)
    (ends : ∀ c ∈ rest.head?, Text.isBlank c = false) :
    lexeme.Yields stretch.chars rest (·.token = stretch.token) := by
  obtain ⟨c, others, shape, noBlank⟩ := spelled.starts
  refine Yields.bind [] stretch.chars rfl (yields_blanks (by simp) ?_) fun _ _ => ?_
  · rw [Stretch.chars, shape]
    simpa using noBlank
  · refine Yields.bind _ _ rfl (yields_one spelled).spanned fun found same => ?_
    refine (yields_blanks allBlank ends).map fun _ _ => ?_
    exact same

theorem refuses_lexeme : lexeme.Refuses [] := by
  have refused : (spanned one).Refuses [] := by
    refine Refuses.spanned (refuses_of_ensures one_consumes ?_)
    rintro used tail value errors shape nonempty
    simp_all [Consumes]
  exact show Refuses _ ([] ++ []) from Refuses.bind_second (yields_blanks (by simp) (by simp))
    fun _ _ => Refuses.bind_first refused

end Lexer

theorem map_token_charLexemes (offset : Nat) (chars : List Char) :
    (charLexemes offset chars).map Lexeme.token = chars := by
  induction chars generalizing offset with
  | nil => rfl
  | cons c chars ih => simp [charLexemes, ih]

/-- A text that is scanned is read without problems. -/
theorem Scans.lex {chars : List Char} {tokens : List Token} (scans : Scans chars tokens []) :
    ∃ lexemes, Token.lex (String.ofList chars) = (some lexemes, []) ∧
      lexemes.map Lexeme.token = tokens := by
  obtain ⟨lead, stretches, rfl, leading, trailing, rfl, spelled⟩ := scans.stretches
  have visible : ∀ before behind, stretches = before ++ behind →
      ∀ c ∈ (behind.flatMap Stretch.chars).head?, Text.isBlank c = false := by
    intro before behind split c isHead
    cases behind with
    | nil => cases isHead
    | cons stretch behind =>
        obtain ⟨d, others, shape, noBlank⟩ := (spelled before stretch behind split).starts
        rw [List.flatMap_cons, Stretch.chars, shape] at isHead
        obtain rfl : d = c := by simpa using isHead
        exact noBlank
  have each : ∀ before stretch behind, stretches = before ++ stretch :: behind →
      (skipAndRetry Lexer.lexeme).Yields stretch.chars (behind.flatMap Stretch.chars ++ [])
        (fun found => found.token = stretch.token) := by
    intro before stretch behind split
    refine (yields_lexeme ?_ (trailing stretch (by simp [split])) ?_).skipAndRetry
    · exact spelled before stretch behind split
    · rw [List.append_nil]
      exact visible (before ++ [stretch]) behind (by simp [split])
  have nonempty : ∀ stretch ∈ stretches, stretch.chars ≠ [] := by
    intro stretch listed
    obtain ⟨before, behind, split⟩ := List.append_of_mem listed
    obtain ⟨c, others, shape, -⟩ := (spelled before stretch behind split).starts
    simp [Stretch.chars, shape]
  have found := Yields.many stretches each nonempty refuses_lexeme.skipAndRetry_nil
  have whole : Lexer.lexemes.Yields (lead ++ stretches.flatMap Stretch.chars) []
      fun lexemes => lexemes.map Lexeme.token = stretches.map Stretch.token := by
    refine Yields.bind lead _ rfl (yields_blanks leading ?_) fun _ _ => ?_
    · rw [List.append_nil]
      exact visible [] stretches rfl
    · refine Yields.bind _ [] (List.append_nil _).symm found fun lexemes alike => ?_
      exact (yields_blanks (by simp) (by simp)).map fun _ _ => eq_of_forall₂ alike
  rw [← map_token_charLexemes 0 (lead ++ _)] at whole
  unfold Token.lex
  simpa using whole.run _

end QueryLoop.Token
