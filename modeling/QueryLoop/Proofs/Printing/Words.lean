import QueryLoop.Proofs.Spelling.Scanning

namespace QueryLoop.Token

open Lexer

theorem isWordPart_of_isBlank {c : Char} (isBlank : Text.isBlank c = true) :
    isWordPart c = false := by
  cases isPart : isWordPart c with
  | false => rfl
  | true => simp [not_isBlank_of_isWordPart isPart] at isBlank

theorem isDigit_of_isWordPart {c : Char} (noPart : isWordPart c = false) : c.isDigit = false := by
  simp only [isWordPart, Char.isAlphanum, Bool.or_eq_false_iff] at noPart
  exact noPart.1.2

/-- Nothing that a word, a number or an angle bracket would go on with. -/
structure Parting (rest : List Char) : Prop where
  plain : ∀ c ∈ rest.head?, isWordPart c = false ∧ c ≠ '='
  noFraction : NoFraction rest

theorem Parting.nil : Parting [] :=
  ⟨by simp, fun _ shape => nomatch shape⟩

theorem Parting.cons {c : Char} {rest : List Char}
    (plain : isWordPart c = false ∧ c ≠ '=' ∧ c ≠ '.') : Parting (c :: rest) := by
  refine ⟨by simpa using ⟨plain.1, plain.2.1⟩, fun behind shape => ?_⟩
  exact absurd (List.cons.inj shape).1 plain.2.2

theorem Parting.dot {rest : List Char} (noDigit : NoDigit rest) : Parting ('.' :: rest) := by
  refine ⟨by simp; decide, fun behind shape => ?_⟩
  obtain ⟨-, rfl⟩ := List.cons.inj shape
  exact noDigit

theorem Parting.blank {c : Char} {rest : List Char} (isBlank : Text.isBlank c = true) :
    Parting (c :: rest) := by
  refine .cons ⟨?_, ?_, ?_⟩
  · exact isWordPart_of_isBlank isBlank
  · rintro rfl
    simp [not_isBlank_of_visible (show 33 ≤ '='.toNat ∧ '='.toNat ≤ 126 by decide)] at isBlank
  · rintro rfl
    simp [not_isBlank_of_visible (show 33 ≤ '.'.toNat ∧ '.'.toNat ≤ 126 by decide)] at isBlank

theorem text_ofWord (word : String) : (ofWord word).text = word := by
  unfold ofWord
  split
  · rename_i known found
    unfold Keyword.ofText? at found
    simpa [text] using List.find?_some found
  · split <;> rfl

/-- Tokens are written as they read; behind a comment the end of the line may be read
with it. -/
theorem Lexer.Spelled.exists_ending {token : Token} {written rest : List Char}
    (spelled : Spelled token written rest) : ∃ ending, written = token.text.toList ++ ending ∧
      (ending = [] ∨ (∃ content, token = .lineComment content) ∧ LineEnding ending rest) := by
  cases spelled with
  | word starts goesOn ends =>
      exact ⟨[], by rw [text_ofWord, String.toList_ofList, List.append_nil], .inl rfl⟩
  | int whole ends noFraction => exact ⟨[], by simp [text], .inl rfl⟩
  | float whole nonempty allDigits ends => exact ⟨[], by simp [text], .inl rfl⟩
  | string each => exact ⟨[], by simp [text], .inl rfl⟩
  | longSign listed =>
      have same : ∀ sign ∈ longSigns, sign.2.text.toList = sign.1 := by decide
      exact ⟨[], by rw [same _ listed, List.append_nil], .inl rfl⟩
  | @shortSign c rest listed short noComment =>
      have same : ∀ c ∈ shortSigns, (ofShortSign c).text.toList = [c] :=
        List.all_iff_forall_prop.mp (by decide)
      exact ⟨[], by rw [same c listed, List.append_nil], .inl rfl⟩
  | @separator c rest listed =>
      have same : ∀ c ∈ separators, (ofSeparator c).text.toList = [c] :=
        List.all_iff_forall_prop.mp (by decide)
      exact ⟨[], by rw [same c listed, List.append_nil], .inl rfl⟩
  | @bracket c rest listed =>
      have same : ∀ c ∈ brackets, (ofBracket c).text.toList = [c] :=
        List.all_iff_forall_prop.mp (by decide)
      exact ⟨[], by rw [same c listed, List.append_nil], .inl rfl⟩
  | @lineComment text ending rest plain ends =>
      exact ⟨ending, by simp [Token.text], .inr ⟨⟨_, rfl⟩, ends⟩⟩
  | blockComment plain => exact ⟨[], by simp [text], .inl rfl⟩

theorem Lexer.Spelled.text_eq {token : Token} {written rest : List Char}
    (spelled : Spelled token written rest) (noComment : token.isComment = false) :
    token.text.toList = written := by
  obtain ⟨ending, rfl, rfl | ⟨⟨content, rfl⟩, -⟩⟩ := spelled.exists_ending
  · rw [List.append_nil]
  · cases noComment

/-- The token is what is read where its text is written. -/
def Proper (token : Token) : Prop :=
  ∃ rest, Spelled token token.text.toList rest

theorem Lexer.Spelled.proper {token : Token} {written rest : List Char}
    (spelled : Spelled token written rest) (noComment : token.isComment = false) : token.Proper :=
  ⟨rest, by rwa [spelled.text_eq noComment]⟩

/-- Signs go on with other signs, and a comment to the end of the line. -/
def isPlain : Token → Bool
  | sign _ | assign | arrow | lineComment _ => false
  | _ => true

theorem Proper.spelled {token : Token} {rest : List Char} (proper : token.Proper)
    (plain : token.isPlain = true) (parting : Parting rest) :
    Spelled token token.text.toList rest := by
  obtain ⟨rest', spelled⟩ := proper
  generalize token.text.toList = written at spelled
  have noDigit : NoDigit rest := fun c isHead => isDigit_of_isWordPart (parting.plain c isHead).1
  cases spelled with
  | word starts goesOn ends => exact .word starts goesOn fun c isHead => (parting.plain c isHead).1
  | int whole ends noFraction => exact .int whole (fun _ => noDigit) parting.noFraction
  | float whole nonempty allDigits ends => exact .float whole nonempty allDigits noDigit
  | string each => exact .string each
  | longSign listed => exact .longSign listed
  | @shortSign c rest listed short noComment =>
      have signs : ∀ c ∈ shortSigns, (ofShortSign c).isPlain = false :=
        List.all_iff_forall_prop.mp (by decide)
      simp [signs c listed] at plain
  | separator listed => exact .separator listed
  | bracket listed => exact .bracket listed
  | lineComment _ _ => simp [isPlain] at plain
  | blockComment closed => exact .blockComment closed

theorem Proper.starts {token : Token} (proper : token.Proper) :
    ∃ c others, token.text.toList = c :: others := by
  obtain ⟨rest, spelled⟩ := proper
  obtain ⟨c, others, shape, -⟩ := spelled.starts
  exact ⟨c, others, shape⟩

/-- A name is a word. -/
theorem Proper.word {name : String} (proper : (ident name).Proper) :
    ∃ first others, name.toList = first :: others ∧ isWordStart first = true ∧
      (∀ c ∈ others, isWordPart c = true) ∧ ofWord name = ident name := by
  obtain ⟨rest, spelled⟩ := proper
  have written : (ident name).text.toList = name.toList := rfl
  rw [written] at spelled
  generalize shape : name.toList = chars at spelled
  generalize same : ident name = token at spelled
  cases spelled with
  | @word first others rest starts goesOn ends =>
      refine ⟨first, others, rfl, starts, goesOn, ?_⟩
      rw [← shape, String.ofList_toList]
  | longSign listed =>
      have signs : ∀ sign ∈ longSigns, sign.2.isPlain = false := by decide
      simpa [← same, isPlain] using signs _ listed
  | @shortSign c rest listed short noComment =>
      have signs : ∀ c ∈ shortSigns, (ofShortSign c).isPlain = false :=
        List.all_iff_forall_prop.mp (by decide)
      simpa [← same, isPlain] using signs c listed
  | separator listed =>
      unfold ofSeparator at same
      split at same <;> cases same
  | bracket listed =>
      unfold ofBracket at same
      split at same <;> cases same
  | _ => cases same

/-- A name does not start with a digit. -/
theorem Proper.noDigit {name : String} (proper : (ident name).Proper) (rest : List Char) :
    NoDigit (name.toList ++ rest) := by
  obtain ⟨first, others, shape, starts, -⟩ := proper.word
  intro c isHead
  obtain rfl : first = c := by simpa [shape] using isHead
  exact (plain_of_isWordStart starts).1

theorem proper_keyword (word : Keyword) : (keyword word).Proper := by
  refine ⟨[], ?_⟩
  have spelled : ∀ word : Keyword, ofWord word.text = keyword word ∧
      ∃ first others, word.text.toList = first :: others ∧ isWordStart first = true ∧
        ∀ c ∈ others, isWordPart c = true := by
    intro word
    cases word <;>
      exact ⟨by decide, _, _, rfl, by decide, List.all_iff_forall_prop.mp (by decide)⟩
  obtain ⟨isKeyword, first, others, shape, starts, goesOn⟩ := spelled word
  have written : word.text = String.ofList (first :: others) := by
    rw [← shape, String.ofList_toList]
  have whole : Spelled (ofWord (String.ofList (first :: others))) (first :: others) [] :=
    .word starts goesOn (by simp)
  rw [← written, isKeyword, ← shape] at whole
  exact whole

theorem proper_ident {word : String} {first : Char} {others : List Char}
    (written : word.toList = first :: others) (starts : isWordStart first = true)
    (goesOn : ∀ c ∈ others, isWordPart c = true) (isName : ofWord word = ident word) :
    (ident word).Proper := by
  have whole : Spelled (ofWord (String.ofList (first :: others))) (first :: others) [] :=
    .word starts goesOn (by simp)
  rw [← written, String.ofList_toList, isName] at whole
  exact ⟨[], whole⟩

/-- A sign of one character, in front of a character that makes it no longer sign and no
comment. -/
theorem spelled_shortSign {c : Char} {rest : List Char} (listed : c ∈ shortSigns)
    (next : ∀ d ∈ rest.head?, (∀ sign ∈ longSigns, sign.1 ≠ [c, d]) ∧
      (c = '/' → d ≠ '/' ∧ d ≠ '*')) : Spelled (ofShortSign c) [c] rest := by
  refine .shortSign listed (fun sign isLong starts => ?_) ?_
  · have pair : ∀ sign ∈ longSigns, ∃ first second, sign.1 = [first, second] := by
      intro sign isLong
      have two : sign.1.length = 2 := by
        have lengths : ∀ sign ∈ longSigns, sign.1.length = 2 := by decide
        exact lengths sign isLong
      exact List.length_eq_two.mp two
    obtain ⟨first, second, shape⟩ := pair sign isLong
    rw [shape] at starts
    obtain ⟨rfl, tail, rfl⟩ := List.cons_prefix_cons.mp starts
    exact (next second (by simp)).1 sign isLong shape
  · rintro (starts | ⟨text, behind, shape⟩)
    · obtain ⟨rfl, tail, rfl⟩ := List.cons_prefix_cons.mp starts
      exact ((next '/' (by simp)).2 rfl).1 rfl
    · obtain ⟨rfl, rfl⟩ := List.cons.inj shape
      exact ((next '*' (by simp)).2 rfl).2 rfl

/-- Signs that are written directly in front of other tokens. -/
theorem spelled_tight {c : Char} {rest : List Char} (tight : c ∈ ['!', '-', '<', '>'])
    (noEqual : rest.head? ≠ some '=') : Spelled (ofShortSign c) [c] rest := by
  refine spelled_shortSign ?_ fun d isHead => ⟨fun sign isLong shape => ?_, ?_⟩
  · have signs : ∀ c ∈ ['!', '-', '<', '>'], c ∈ shortSigns :=
      List.all_iff_forall_prop.mp (by decide)
    exact signs c tight
  · have longer : ∀ c ∈ ['!', '-', '<', '>'], ∀ sign ∈ longSigns, sign.1.head? = some c →
        sign.1.getLast? = some '=' := List.all_iff_forall_prop.mp (by decide)
    have isEqual := longer c tight sign isLong (by rw [shape]; rfl)
    rw [shape] at isEqual
    have same : d = '=' := by simpa using isEqual
    exact noEqual (same ▸ isHead)
  · rintro rfl
    simp at tight

/-- A blank ends every sign. -/
theorem spelled_before_blank {c d : Char} {rest : List Char} (listed : c ∈ shortSigns)
    (isBlank : Text.isBlank d = true) : Spelled (ofShortSign c) [c] (d :: rest) := by
  refine spelled_shortSign listed fun other isHead => ?_
  obtain rfl : d = other := by simpa using isHead
  refine ⟨fun sign isLong shape => ?_, fun _ => ⟨?_, ?_⟩⟩
  · have visible : ∀ sign ∈ longSigns, sign.1.all (!Text.isBlank ·) = true := by decide
    have noBlank := List.all_eq_true.mp (visible sign isLong) d (by simp [shape])
    simp [isBlank] at noBlank
  · rintro rfl
    cases isBlank
  · rintro rfl
    cases isBlank

theorem spelled_binary (op : BinaryOp) {d : Char} {rest : List Char}
    (isBlank : Text.isBlank d = true) :
    Spelled (.sign op.sign) op.text.toList (d :: rest) := by
  cases op with
  | lessEqual | greaterEqual | equal | notEqual | and | or => exact .longSign (by decide)
  | times => exact spelled_before_blank (c := '*') (by decide) isBlank
  | divide => exact spelled_before_blank (c := '/') (by decide) isBlank
  | modulo => exact spelled_before_blank (c := '%') (by decide) isBlank
  | plus => exact spelled_before_blank (c := '+') (by decide) isBlank
  | minus => exact spelled_before_blank (c := '-') (by decide) isBlank
  | less => exact spelled_before_blank (c := '<') (by decide) isBlank
  | greater => exact spelled_before_blank (c := '>') (by decide) isBlank

theorem spelled_unary (op : UnaryOp) {rest : List Char} (noEqual : rest.head? ≠ some '=') :
    Spelled (.sign op.sign) op.text.toList rest := by
  cases op with
  | not => exact spelled_tight (c := '!') (by decide) noEqual
  | minus => exact spelled_tight (c := '-') (by decide) noEqual

variable {token : Token} {front rest : List Char} {tokens : List Token}

theorem Proper.scans (proper : token.Proper) (plain : token.isPlain = true)
    (parting : Parting rest) : Scans token.text.toList [token] rest :=
  .single (proper.spelled plain parting)

theorem Scans.after_blanks {chars : List Char} (allBlank : ∀ c ∈ chars, Text.isBlank c = true)
    (scans : Scans front tokens rest) : Scans (chars ++ front) tokens rest := by
  induction chars with
  | nil => exact scans
  | cons c chars ih =>
      obtain ⟨isBlank, others⟩ := List.forall_mem_cons.mp allBlank
      exact .blank isBlank (ih others)

theorem Scans.then_blank (scans : Scans front tokens (' ' :: rest)) :
    Scans (front ++ [' ']) tokens rest := by
  have blank : Scans [' '] [] rest := .blank (by decide) (.nil rest)
  have spaced := Scans.append (show Scans front tokens ([' '] ++ rest) from scans) blank
  rwa [List.append_nil] at spaced

end QueryLoop.Token
