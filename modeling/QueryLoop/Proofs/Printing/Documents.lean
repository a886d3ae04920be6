import QueryLoop.Proofs.Printing.Layouts
import QueryLoop.Proofs.Printing.Words
import QueryLoop.Proofs.Spelling.Tokens

namespace QueryLoop

/-! Documents that are read as tokens, and how they are put together.

A word, a number or an angle bracket at the end of a document may go on in the text behind
it; a bracket, a separator, a word with a blank or a comment may not.  So there are two
judgements of what a document is read as, and two of what it is to the text in front.
-/

open Token Token.Lexer

variable {rest : List Char}

/-- A text that is read as the tokens before anything it does not go on with. -/
def ReadAs (chars : List Char) (tokens : List Token) : Prop :=
  ∀ rest, Parting rest → Scans chars tokens rest

namespace Layout.Doc

/-- Every layout of the document is read as the tokens. -/
def Writes (doc : Doc) (tokens : List Token) : Prop :=
  ∀ chars, doc.Lays chars → ReadAs chars tokens

/-- Every layout of the document is read as the tokens, whatever follows. -/
def Closes (doc : Doc) (tokens : List Token) : Prop :=
  ∀ chars, doc.Lays chars → ∀ rest, Scans chars tokens rest

/-- No layout of the document goes on with what is in front of it. -/
def Parts (doc : Doc) : Prop :=
  ∀ chars, doc.Lays chars → ∀ rest, Parting (chars ++ rest)

/-- As `Parts`, but a layout may be empty, and then it depends on what follows. -/
def Passes (doc : Doc) : Prop :=
  ∀ chars, doc.Lays chars → ∀ rest, Parting rest → Parting (chars ++ rest)

/-- Every layout of the document is nothing but blanks. -/
def Blanks (doc : Doc) : Prop :=
  ∀ chars, doc.Lays chars → ∀ c ∈ chars, Text.isBlank c = true

/-- Every layout of the document starts with a blank. -/
def Spaces (doc : Doc) : Prop :=
  ∀ chars, doc.Lays chars → ∃ c behind, chars = c :: behind ∧ Text.isBlank c = true

variable {first second third : Doc} {tokens more : List Token}

theorem Closes.writes (closes : first.Closes tokens) : first.Writes tokens :=
  fun chars laid rest _ => closes chars laid rest

theorem Parts.passes (parts : first.Parts) : first.Passes :=
  fun chars laid rest _ => parts chars laid rest

theorem Writes.append (writes : first.Writes tokens) (passes : second.Passes)
    (writes' : second.Writes more) : (first ++ second).Writes (tokens ++ more) := by
  rintro chars ⟨front, back, rfl, laid, laid'⟩ rest parting
  exact (writes front laid (back ++ rest) (passes back laid' rest parting)).append
    (writes' back laid' rest parting)

theorem Writes.append_closes (writes : first.Writes tokens) (parts : second.Parts)
    (closes : second.Closes more) : (first ++ second).Closes (tokens ++ more) := by
  rintro chars ⟨front, back, rfl, laid, laid'⟩ rest
  exact (writes front laid (back ++ rest) (parts back laid' rest)).append (closes back laid' rest)

theorem Closes.append_writes (closes : first.Closes tokens) (writes : second.Writes more) :
    (first ++ second).Writes (tokens ++ more) := by
  rintro chars ⟨front, back, rfl, laid, laid'⟩ rest parting
  exact (closes front laid (back ++ rest)).append (writes back laid' rest parting)

theorem Closes.append (closes : first.Closes tokens) (closes' : second.Closes more) :
    (first ++ second).Closes (tokens ++ more) := by
  rintro chars ⟨front, back, rfl, laid, laid'⟩ rest
  exact (closes front laid (back ++ rest)).append (closes' back laid' rest)

theorem Parts.append (parts : first.Parts) : (first ++ second).Parts := by
  rintro chars ⟨front, back, rfl, laid, -⟩ rest
  rw [List.append_assoc]
  exact parts front laid (back ++ rest)

theorem lays_append_assoc {chars : List Char} :
    (first ++ second ++ third).Lays chars ↔ (first ++ (second ++ third)).Lays chars := by
  constructor
  · rintro ⟨_, last, rfl, ⟨front, middle, rfl, laid, laid'⟩, laid''⟩
    exact ⟨front, _, List.append_assoc .., laid, middle, last, rfl, laid', laid''⟩
  · rintro ⟨front, _, rfl, laid, middle, last, rfl, laid', laid''⟩
    exact ⟨_, last, (List.append_assoc ..).symm, ⟨front, middle, rfl, laid, laid'⟩, laid''⟩

theorem Closes.assoc (closes : (first ++ (second ++ third)).Closes tokens) :
    (first ++ second ++ third).Closes tokens :=
  fun chars laid => closes chars (lays_append_assoc.mp laid)

theorem Blanks.closes (blanks : first.Blanks) : first.Closes [] :=
  fun chars laid _ => .blanks (blanks chars laid)

theorem Blanks.passes (blanks : first.Blanks) : first.Passes := by
  intro chars laid rest parting
  cases chars with
  | nil => exact parting
  | cons c chars => exact .blank (blanks _ laid c List.mem_cons_self)

theorem Spaces.parts (spaces : first.Spaces) : first.Parts := by
  intro chars laid rest
  obtain ⟨c, behind, rfl, isBlank⟩ := spaces chars laid
  exact .blank isBlank

theorem Writes.append_blanks (writes : first.Writes tokens) (blanks : second.Blanks) :
    (first ++ second).Writes tokens := by
  have whole := writes.append blanks.passes blanks.closes.writes
  rwa [List.append_nil] at whole

theorem Writes.append_spaces (writes : first.Writes tokens) (blanks : second.Blanks)
    (spaces : second.Spaces) : (first ++ second).Closes tokens := by
  have whole := writes.append_closes spaces.parts blanks.closes
  rwa [List.append_nil] at whole

theorem blanks_space : (text " ").Blanks := by
  rintro chars rfl
  exact List.all_iff_forall_prop.mp (by decide)

theorem spaces_space : (text " ").Spaces := by
  rintro chars rfl
  exact ⟨' ', [], rfl, by decide⟩

theorem blanks_hardline : hardline.Blanks := by
  rintro chars ⟨blanks, allBlank, rfl⟩
  exact List.forall_mem_cons.mpr ⟨by decide, allBlank⟩

theorem spaces_hardline : hardline.Spaces := by
  rintro chars ⟨blanks, -, rfl⟩
  exact ⟨'\n', blanks, rfl, by decide⟩

theorem blanks_line {flat : String} (blanks : (text flat).Blanks) : (line flat).Blanks := by
  rintro chars (rfl | broken)
  · exact blanks _ rfl
  · exact blanks_hardline chars broken

theorem spaces_line {flat : String} (spaces : (text flat).Spaces) : (line flat).Spaces := by
  rintro chars (rfl | broken)
  · exact spaces _ rfl
  · exact spaces_hardline chars broken

theorem blanks_softline : (line "").Blanks := by
  refine blanks_line ?_
  rintro chars rfl
  exact List.all_iff_forall_prop.mp (by decide)

/-- Two parts with a space between them. -/
theorem Writes.spaced (writes : first.Writes tokens) (writes' : second.Writes more) :
    (first ++ text " " ++ second).Writes (tokens ++ more) :=
  (writes.append_spaces blanks_space spaces_space).append_writes writes'

theorem writes_token {token : Token} (proper : token.Proper) (plain : token.isPlain = true) :
    (text token.text).Writes [token] := by
  rintro chars rfl rest parting
  exact proper.scans plain parting

theorem parts_text {c : Char} {others : List Char} {content : String}
    (written : content.toList = c :: others)
    (plain : isWordPart c = false ∧ c ≠ '=' ∧ c ≠ '.') : (text content).Parts := by
  rintro chars rfl rest
  rw [written]
  exact .cons plain

theorem closes_separator {c : Char} {content : String} (written : content.toList = [c])
    (listed : c ∈ separators) : (text content).Closes [ofSeparator c] := by
  rintro chars rfl rest
  rw [written]
  exact .single (.separator listed)

theorem closes_bracket {c : Char} {content : String} (written : content.toList = [c])
    (listed : c ∈ brackets) : (text content).Closes [ofBracket c] := by
  rintro chars rfl rest
  rw [written]
  exact .single (.bracket listed)

theorem parts_bracket {c : Char} {content : String} (written : content.toList = [c])
    (listed : c ∈ brackets) : (text content).Parts := by
  have plain : ∀ c ∈ brackets, isWordPart c = false ∧ c ≠ '=' ∧ c ≠ '.' :=
    List.all_iff_forall_prop.mp (by decide)
  exact parts_text written (plain c listed)

/-- A part with a semicolon behind it. -/
theorem Writes.semicolon (writes : first.Writes tokens) :
    (first ++ text ";").Closes (tokens ++ [.semicolon]) :=
  writes.append_closes (parts_text (c := ';') rfl (by decide))
    (closes_separator (c := ';') rfl (by decide))

/-- A part between brackets. -/
theorem closes_enclose {c : Char} {opening closing : String} {token : Token}
    (opens : (text opening).Closes [token]) (writes : first.Writes tokens)
    (written : closing.toList = [c]) (listed : c ∈ brackets) :
    (enclose opening closing first).Closes (token :: (tokens ++ [ofBracket c])) :=
  opens.append (writes.append_closes (parts_bracket written listed) (closes_bracket written listed))

theorem closes_parentheses (writes : first.Writes tokens) :
    (enclose "(" ")" first).Closes (.parenOpen :: (tokens ++ [.parenClose])) :=
  closes_enclose (closes_bracket (c := '(') rfl (by decide)) writes (c := ')') rfl (by decide)

theorem parts_parentheses : (enclose "(" ")" first).Parts :=
  Parts.append (parts_bracket (c := '(') rfl (by decide))

/-- A token that a blank ends, and a blank behind it. -/
theorem closes_before_spaces {content : String} {token : Token} (blanks : first.Blanks)
    (spaces : first.Spaces) (scans : ∀ {c : Char}, Text.isBlank c = true → ∀ rest : List Char,
      Scans content.toList [token] (c :: rest)) : (text content ++ first).Closes [token] := by
  rintro chars ⟨_, back, rfl, rfl, laid⟩ rest
  obtain ⟨c, behind, rfl, isBlank⟩ := spaces back laid
  exact (scans isBlank (behind ++ rest)).append (.blanks (blanks _ laid))

/-- A token with a space on both sides. -/
theorem closes_between_spaces {content : String} {token : Token} (written : List Char)
    (shape : content.toList = ' ' :: (written ++ [' ']))
    (scans : ∀ rest : List Char, Scans written [token] (' ' :: rest)) :
    (text content).Closes [token] := by
  rintro chars rfl rest
  rw [shape]
  exact .blank (by decide) (scans rest).then_blank

theorem closes_word {content : String} (word : Keyword) (written : content = word.text ++ " ") :
    (text content).Closes [.keyword word] := by
  rintro chars rfl rest
  rw [written, String.toList_append]
  exact Scans.then_blank ((proper_keyword word).scans rfl (.cons (c := ' ') (by decide)))

theorem closes_word_semicolon {content : String} (word : Keyword)
    (written : content = word.text ++ ";") :
    (text content).Closes [.keyword word, .semicolon] := by
  rintro chars rfl rest
  rw [written, String.toList_append]
  have named : Scans word.text.toList [.keyword word] (';' :: rest) :=
    (proper_keyword word).scans rfl (.cons (by decide))
  exact named.append (.single (.separator (c := ';') (by decide)))

/-- What stands for a part that could not be read. -/
theorem closes_error : (text "/* error */").Closes [.blockComment " error "] := by
  rintro chars rfl rest
  refine .single (.blockComment fun before c behind split starts => ?_)
  obtain ⟨rfl, -⟩ := List.cons_prefix_cons.mp starts
  have inside : '*' ∈ [' ', 'e', 'r', 'r', 'o', 'r', ' '] := by
    rw [split]
    exact List.mem_append_right before List.mem_cons_self
  simp at inside

theorem writes_intersperse {α : Type} {separator : Doc} {mark : Token} (docOf : α → Doc)
    {spell : α → List Token} {items : List α} (closes : separator.Closes [mark])
    (parts : separator.Parts) (each : ∀ item ∈ items, (docOf item).Writes (spell item)) :
    (intersperse separator (items.map docOf)).Writes (Token.listed mark spell items) := by
  induction items with
  | nil =>
      rintro chars rfl rest -
      exact .nil rest
  | cons item items ih =>
      obtain ⟨own, others⟩ := List.forall_mem_cons.mp each
      cases items with
      | nil => simpa [intersperse, Token.listed] using own
      | cons next items =>
          have whole := own.append parts.append.passes (closes.append_writes (ih others))
          simp only [Token.listed, List.flatMap_cons, List.cons_append, List.nil_append] at whole ⊢
          exact whole

theorem closes_comma : (text ", ").Closes [.comma] := by
  rintro chars rfl rest
  exact Scans.then_blank (.single (.separator (by decide)))

theorem parts_comma : (text ", ").Parts :=
  parts_text (c := ',') rfl (by decide)

end Layout.Doc

theorem mem_listed {α : Type} {mark : Token} {spell : α → List Token} {items : List α} {item : α}
    (isItem : item ∈ items) {token : Token} (inside : token ∈ spell item) :
    token ∈ Token.listed mark spell items := by
  cases items with
  | nil => simp at isItem
  | cons first others =>
      rcases List.mem_cons.mp isItem with rfl | isItem
      · exact List.mem_append_left _ inside
      · exact List.mem_append_right _
          (List.mem_flatMap.mpr ⟨item, isItem, List.mem_cons_of_mem mark inside⟩)

end QueryLoop
