import QueryLoop.Format.Splice
import QueryLoop.Proofs.Printing.Seams
import QueryLoop.Proofs.Printing.Statements
import QueryLoop.Proofs.Printing.Usable

namespace QueryLoop

open Layout Token Token.Lexer

/-- There is nothing on the line that starts here. -/
def lineIsEmpty : List Char → Bool
  | [] => true
  | c :: rest => c == '\n' || c == '\r' && rest.head? == some '\n'

/-- The text with its lines indented, where `rest` follows it. -/
def reindented (indent rest : List Char) : List Char → List Char
  | [] => []
  | c :: front =>
      if c = '\r' ∧ (front ++ rest).head? = some '\n' then reindented indent rest front
      else c :: ((if c = '\n' ∧ lineIsEmpty (front ++ rest) = false then indent else []) ++
        reindented indent rest front)

section

variable {indent rest front back : List Char}

theorem reindented_append (indent rest front back : List Char) :
    reindented indent rest (front ++ back) =
      reindented indent (back ++ rest) front ++ reindented indent rest back := by
  induction front with
  | nil => rfl
  | cons c front ih =>
      rw [List.cons_append, reindented, reindented, List.append_assoc, ih]
      split <;> simp

theorem reindented_of_plain (plain : ∀ c ∈ front, c ≠ '\r' ∧ c ≠ '\n') :
    reindented indent rest front = front := by
  induction front with
  | nil => rfl
  | cons c front ih =>
      obtain ⟨⟨noReturn, noFeed⟩, others⟩ := List.forall_mem_cons.mp plain
      rw [reindented, if_neg (by simp [noReturn]), if_neg (by simp [noFeed]), ih others]
      rfl

/-- In front of a character that ends no line it does not matter what else follows. -/
theorem reindented_before {c : Char} (noReturn : c ≠ '\r') (noFeed : c ≠ '\n') :
    reindented indent (c :: rest) front = reindented indent [c] front := by
  have sameLine : ∀ front : List Char, lineIsEmpty (front ++ c :: rest) = lineIsEmpty (front ++ [c]) := by
    intro front
    match front with
    | [] => simp [lineIsEmpty, noReturn, noFeed]
    | [d] => simp [lineIsEmpty]
    | d :: e :: front => simp [lineIsEmpty]
  induction front with
  | nil => rfl
  | cons d front ih =>
      have sameHead : (front ++ c :: rest).head? = (front ++ [c]).head? := by
        cases front <;> rfl
      rw [reindented, reindented, ih, sameHead, sameLine]

theorem reindented_concat {c : Char} (noReturn : c ≠ '\r') (noFeed : c ≠ '\n') :
    reindented indent rest (front ++ [c]) = reindented indent [c] front ++ [c] := by
  have last : reindented indent rest [c] = [c] :=
    reindented_of_plain (by simp [noReturn, noFeed])
  rw [reindented_append, List.singleton_append, reindented_before noReturn noFeed, last]

theorem splitOn_newline_cons (c : Char) (chars : List Char) : (c :: chars).splitOn '\n' =
    if c = '\n' then [] :: chars.splitOn '\n' else (chars.splitOn '\n').modifyHead (c :: ·) := by
  simp [List.splitOn, List.splitOnP_cons_eq_if_modifyHead]

/-- A carriage return at the end of a line belongs to the line end. -/
def dropReturn (line : List Char) : List Char :=
  if line.getLast? = some '\r' then line.dropLast else line

theorem textLines_eq {chars last : List Char} {lines : List (List Char)}
    (split : chars.splitOn '\n' = lines ++ [last]) :
    textLines chars = lines.map dropReturn ++ if last.isEmpty then [] else [last] := by
  simp only [textLines, split, List.reverse_append, List.reverse_singleton, List.singleton_append,
    List.reverse_reverse]
  rfl

theorem exists_splitOn (chars : List Char) :
    ∃ lines last, chars.splitOn '\n' = lines ++ [last] :=
  ⟨_, _, (List.dropLast_append_getLast (List.splitOn_ne_nil '\n' chars)).symm⟩

theorem textLines_newline (chars : List Char) : textLines ('\n' :: chars) = [] :: textLines chars := by
  obtain ⟨lines, last, split⟩ := exists_splitOn chars
  have whole : ('\n' :: chars).splitOn '\n' = ([] :: lines) ++ [last] := by
    rw [splitOn_newline_cons, if_pos rfl, split]
    rfl
  rw [textLines_eq whole, textLines_eq split]
  rfl

theorem textLines_return_newline (chars : List Char) :
    textLines ('\r' :: '\n' :: chars) = textLines ('\n' :: chars) := by
  obtain ⟨lines, last, split⟩ := exists_splitOn chars
  have whole : ('\r' :: '\n' :: chars).splitOn '\n' = (['\r'] :: lines) ++ [last] := by
    rw [splitOn_newline_cons, if_neg (by decide), splitOn_newline_cons, if_pos rfl, split]
    rfl
  rw [textLines_eq whole, textLines_newline, textLines_eq split]
  rfl

theorem newline_of_splitOn {d : Char} {chars : List Char} {lines : List (List Char)}
    (split : (d :: chars).splitOn '\n' = [] :: lines) :
    d = '\n' ∧ lines = chars.splitOn '\n' := by
  rw [splitOn_newline_cons] at split
  split at split
  · exact ⟨‹_›, (List.cons.inj split).2.symm⟩
  · obtain ⟨first, others, behind⟩ := List.exists_cons_of_ne_nil (List.splitOn_ne_nil '\n' chars)
    simp [behind] at split

theorem dropReturn_cons {c : Char} {line : List Char} (noEnd : line = [] → c ≠ '\r') :
    dropReturn (c :: line) = c :: dropReturn line := by
  cases line with
  | nil => simp [dropReturn, noEnd rfl]
  | cons d line =>
      unfold dropReturn
      rw [List.getLast?_cons_cons, List.dropLast_cons_cons]
      split <;> rfl

theorem textLines_cons {c d : Char} {chars : List Char} (noFeed : c ≠ '\n')
    (noEnd : ¬(c = '\r' ∧ d = '\n')) :
    textLines (c :: d :: chars) = (textLines (d :: chars)).modifyHead (c :: ·) := by
  obtain ⟨lines, last, split⟩ := exists_splitOn (d :: chars)
  have whole : (c :: d :: chars).splitOn '\n' = (lines ++ [last]).modifyHead (c :: ·) := by
    rw [splitOn_newline_cons, if_neg noFeed, split]
  cases lines with
  | nil =>
      have nonempty : last ≠ [] := by
        rintro rfl
        exact List.splitOn_ne_nil '\n' chars (newline_of_splitOn split).2.symm
      have only : (c :: d :: chars).splitOn '\n' = [] ++ [c :: last] := whole
      rw [textLines_eq only, textLines_eq split]
      simp [nonempty]
  | cons first lines =>
      have more : (c :: d :: chars).splitOn '\n' = ((c :: first) :: lines) ++ [last] := whole
      rw [textLines_eq more, textLines_eq split, List.map_cons, List.map_cons,
        dropReturn_cons fun isEmpty isReturn => ?_]
      · rfl
      · subst isEmpty
        exact noEnd ⟨isReturn, (newline_of_splitOn split).1⟩

theorem textLines_singleton {c : Char} (noFeed : c ≠ '\n') : textLines [c] = [[c]] := by
  have only : [c].splitOn '\n' = [] ++ [[c]] := by
    rw [splitOn_newline_cons, if_neg noFeed]
    rfl
  rw [textLines_eq only]
  rfl

theorem indentLines_cons (indent first : List Char) (lines : List (List Char)) :
    indentLines indent (first :: lines) = first ++ lines.flatMap fun line =>
      '\n' :: if line.isEmpty then [] else indent ++ line := by
  cases lines with
  | nil => simp [indentLines]
  | cons next lines => rfl

/-- What starts with a character has a first line. -/
theorem exists_textLines (c : Char) (chars : List Char) :
    ∃ first others, textLines (c :: chars) = first :: others ∧
      first.isEmpty = lineIsEmpty (c :: chars) := by
  by_cases isFeed : c = '\n'
  · subst isFeed
    exact ⟨[], _, textLines_newline chars, rfl⟩
  · cases chars with
    | nil => exact ⟨_, _, textLines_singleton isFeed, by simp [lineIsEmpty, isFeed]⟩
    | cons d chars =>
        by_cases isEnd : c = '\r' ∧ d = '\n'
        · obtain ⟨rfl, rfl⟩ := isEnd
          exact ⟨[], _, (textLines_return_newline chars).trans (textLines_newline chars), rfl⟩
        · obtain ⟨first, others, split, -⟩ := exists_textLines d chars
          refine ⟨c :: first, others, by rw [textLines_cons isFeed isEnd, split]; rfl, ?_⟩
          simp_all [lineIsEmpty]

theorem indentLines_textLines (indent : List Char) {chars : List Char}
    (noFeed : chars.getLast? ≠ some '\n') :
    indentLines indent (textLines chars) = reindented indent [] chars := by
  induction chars with
  | nil => rfl
  | cons c chars ih =>
      cases chars with
      | nil =>
          have different : c ≠ '\n' := by simpa using noFeed
          rw [textLines_singleton different, reindented, if_neg (by simp)]
          simp [different, reindented, indentLines]
      | cons d chars =>
          have ih := ih (by simpa using noFeed)
          obtain ⟨first, others, split, isEmpty⟩ := exists_textLines d chars
          rw [reindented, List.append_nil]
          by_cases isFeed : c = '\n'
          · subst isFeed
            rw [split, indentLines_cons] at ih
            rw [textLines_newline, split, indentLines_cons, if_neg (by simp), ← ih, ← isEmpty]
            cases first <;> simp
          · by_cases isEnd : c = '\r' ∧ d = '\n'
            · obtain ⟨rfl, rfl⟩ := isEnd
              rw [if_pos ⟨rfl, rfl⟩, ← ih, textLines_return_newline]
            · rw [if_neg (by simpa using isEnd), if_neg (by simp [isFeed]), ← ih,
                textLines_cons isFeed isEnd, split]
              simp [indentLines_cons]

end

/-- The token with the lines of its text indented: only a string literal has more than
one line. -/
def Token.indented (indent : List Char) : Token → Token
  | .string content =>
      .string (String.ofList (indentLines indent (textLines (content.toList ++ ['"']))).dropLast)
  | token => token

theorem Token.indented_string (indent chars : List Char) :
    (Token.string (String.ofList chars)).indented indent =
      .string (String.ofList (reindented indent ['"'] chars)) := by
  have quoted : reindented indent [] (chars ++ ['"']) = reindented indent ['"'] chars ++ ['"'] :=
    reindented_append indent [] chars ['"']
  simp only [Token.indented, String.toList_ofList]
  rw [indentLines_textLines indent (by simp), quoted, List.dropLast_concat]

theorem Token.isComment_indented (indent : List Char) (token : Token) :
    (token.indented indent).isComment = token.isComment := by
  cases token <;> rfl

/-- Characters that may stand in a string literal, the first one behind a backslash or
not. -/
def Quoted : (escaped : Bool) → List Char → Prop
  | escaped, [] => escaped = false
  | true, _ :: chars => Quoted false chars
  | false, c :: chars => c ≠ '"' ∧ Quoted (c == '\\') chars

namespace Quoted

variable {escaped : Bool} {indent chars : List Char}

theorem of_parts {parts : List (List Char)} (each : ∀ part ∈ parts, StringPart part) :
    Quoted false parts.flatten := by
  induction parts with
  | nil => rfl
  | cons part parts ih =>
      obtain ⟨own, others⟩ := List.forall_mem_cons.mp each
      rcases own with ⟨c, noEscape, noQuote, rfl⟩ | ⟨c, rfl⟩
      · have plain : (c == '\\') = false := by simpa using noEscape
        exact ⟨noQuote, plain ▸ ih others⟩
      · exact ⟨by decide, ih others⟩

theorem exists_parts (quoted : Quoted escaped chars) :
    ∃ parts : List (List Char), (∀ part ∈ parts, StringPart part) ∧
      (if escaped then '\\' :: chars else chars) = parts.flatten := by
  induction chars generalizing escaped with
  | nil =>
      obtain rfl : escaped = false := quoted
      exact ⟨[], by simp, rfl⟩
  | cons c chars ih =>
      cases escaped with
      | true =>
          obtain ⟨parts, each, same⟩ := ih quoted
          obtain rfl : chars = parts.flatten := same
          exact ⟨['\\', c] :: parts, List.forall_mem_cons.mpr ⟨.inr ⟨c, rfl⟩, each⟩, rfl⟩
      | false =>
          obtain ⟨noQuote, following⟩ := quoted
          obtain ⟨parts, each, same⟩ := ih following
          by_cases isEscape : c = '\\'
          · subst isEscape
            exact ⟨parts, each, same⟩
          · have plain : (c == '\\') = false := by simpa using isEscape
            rw [plain] at same
            obtain rfl : chars = parts.flatten := same
            exact ⟨[c] :: parts,
              List.forall_mem_cons.mpr ⟨.inl ⟨c, isEscape, noQuote, rfl⟩, each⟩, rfl⟩

theorem newline_iff : Quoted escaped ('\n' :: chars) ↔ Quoted false chars := by
  cases escaped <;> simp [Quoted]

theorem after_blanks (allBlank : ∀ c ∈ indent, Text.isBlank c = true)
    (quoted : Quoted false chars) : Quoted false (indent ++ chars) := by
  induction indent with
  | nil => exact quoted
  | cons c indent ih =>
      obtain ⟨isBlank, others⟩ := List.forall_mem_cons.mp allBlank
      have noQuote : c ≠ '"' := by
        rintro rfl
        cases isBlank
      have noEscape : (c == '\\') = false := by
        refine beq_eq_false_iff_ne.mpr ?_
        rintro rfl
        cases isBlank
      exact ⟨noQuote, noEscape ▸ ih others⟩

/-- What may stand in a string literal may still stand there with its lines indented. -/
theorem reindented (allBlank : ∀ c ∈ indent, Text.isBlank c = true) (quoted : Quoted escaped chars) :
    Quoted escaped (reindented indent ['"'] chars) := by
  induction chars generalizing escaped with
  | nil => exact quoted
  | cons c chars ih =>
      rw [QueryLoop.reindented]
      split
      · rename_i dropped
        obtain ⟨rfl, isFeed⟩ := dropped
        -- The carriage return goes, and the line feed takes its place behind a backslash.
        obtain ⟨others, rfl⟩ : ∃ others, chars = '\n' :: others := by
          cases chars with
          | nil => simp at isFeed
          | cons d others => exact ⟨others, by simpa using isFeed⟩
        have behind : Quoted false ('\n' :: others) := by
          cases escaped with
          | true => exact quoted
          | false => exact quoted.2
        have kept := ih behind
        rw [QueryLoop.reindented, if_neg (by simp), newline_iff] at kept ⊢
        exact kept
      · split
        · rename_i starts
          obtain ⟨rfl, -⟩ := starts
          exact newline_iff.mpr (after_blanks allBlank (ih (newline_iff.mp quoted)))
        · cases escaped with
          | true => exact ih (show Quoted false chars from quoted)
          | false => exact ⟨quoted.1, ih quoted.2⟩

end Quoted

theorem lastLine_append {front line : List Char} (noFeed : '\n' ∉ line) :
    lastLine (front ++ '\n' :: line) = line := by
  have all : ∀ c ∈ line.reverse, (c != '\n') = true := by
    intro c listed
    simp only [bne_iff_ne, ne_eq]
    rintro rfl
    exact noFeed (List.mem_reverse.mp listed)
  rw [lastLine, List.reverse_append, List.reverse_cons, List.append_assoc,
    List.takeWhile_append_of_pos all]
  simp

/-- A text with line feeds has a last line. -/
theorem exists_lastLine {chars : List Char} (hasFeed : '\n' ∈ chars) :
    ∃ front line, chars = front ++ '\n' :: line ∧ '\n' ∉ line := by
  induction chars with
  | nil => simp at hasFeed
  | cons c chars ih =>
      by_cases later : '\n' ∈ chars
      · obtain ⟨front, line, rfl, noFeed⟩ := ih later
        exact ⟨c :: front, line, rfl, noFeed⟩
      · obtain rfl : '\n' = c := by simpa [later] using hasFeed
        exact ⟨[], chars, rfl, later⟩

section

variable {indent rest chars : List Char}

theorem reindented_of_noFeed (noFeed : '\n' ∉ chars) (behind : rest.head? ≠ some '\n') :
    reindented indent rest chars = chars := by
  induction chars with
  | nil => rfl
  | cons c chars ih =>
      obtain ⟨different, others⟩ := not_or.mp (mt List.mem_cons.mpr noFeed)
      have noEnd : (chars ++ rest).head? ≠ some '\n' := by
        cases chars with
        | nil => exact behind
        | cons d chars => simpa using fun same => others (by simp [same])
      rw [reindented, if_neg fun dropped => noEnd dropped.2,
        if_neg fun starts => different starts.1.symm, ih others]
      rfl

/-- Without indentation only carriage returns are dropped. -/
theorem reindented_nil_eq_iff (behind : rest.head? ≠ some '\n') :
    reindented [] rest chars = chars ↔ ¬['\r', '\n'] <:+: chars := by
  induction chars with
  | nil => simp [reindented]
  | cons c chars ih =>
      rw [reindented]
      split
      · rename_i dropped
        obtain ⟨rfl, isFeed⟩ := dropped
        cases chars with
        | nil => exact absurd isFeed behind
        | cons d chars =>
            obtain rfl : d = '\n' := by simpa using isFeed
            rw [reindented, if_neg (by simp)]
            refine iff_of_false (by simp) (not_not.mpr ⟨[], chars, rfl⟩)
      · rename_i kept
        have apart : ¬['\r', '\n'] <+: c :: chars := by
          rintro ⟨others, same⟩
          obtain ⟨rfl, rfl⟩ := List.cons.inj same
          exact kept ⟨rfl, rfl⟩
        rw [ite_self, List.nil_append, List.cons.injEq, List.infix_cons_iff, ih]
        simp [apart]

/-- A string literal keeps its text if it is on one line, or if nothing stands in front
of its lines and they do not end with carriage returns. -/
theorem Token.indented_string_eq_iff {content : String} (oneLine : '\n' ∉ indent) :
    (Token.string content).indented indent = .string content ↔
      '\n' ∉ content.toList ∨ indent = [] ∧ ¬['\r', '\n'] <:+: content.toList := by
  have spelled := Token.indented_string indent content.toList
  rw [String.ofList_toList] at spelled
  rw [spelled, Token.string.injEq]
  have same : String.ofList (reindented indent ['"'] content.toList) = content ↔
      reindented indent ['"'] content.toList = content.toList := by
    rw [← String.toList_inj, String.toList_ofList]
  rw [same]
  generalize content.toList = chars
  constructor
  · intro unchanged
    refine or_iff_not_imp_left.mpr fun hasFeed => ?_
    obtain ⟨front, line, rfl, noFeed⟩ := exists_lastLine (not_not.mp hasFeed)
    -- The last line is never empty: the quote stands behind it.
    have notEmpty : lineIsEmpty (line ++ ['"']) = false := by
      cases line with
      | nil => rfl
      | cons c line =>
          have different := not_or.mp (mt List.mem_cons.mpr noFeed)
          cases line with
          | nil => simp [lineIsEmpty, Ne.symm different.1]
          | cons d line =>
              have next : d ≠ '\n' := fun same => different.2 (by simp [same])
              simp [lineIsEmpty, Ne.symm different.1, next]
    have last : reindented indent ['"'] ('\n' :: line) = '\n' :: (indent ++ line) := by
      rw [reindented, if_neg (by simp), if_pos ⟨rfl, notEmpty⟩,
        reindented_of_noFeed noFeed (by simp)]
    have lines := congrArg lastLine unchanged
    rw [reindented_append, last, lastLine_append (by simp [oneLine, noFeed]),
      lastLine_append noFeed] at lines
    obtain rfl : indent = [] := by simpa using lines
    exact ⟨rfl, (reindented_nil_eq_iff (by simp)).mp unchanged⟩
  · rintro (noFeed | ⟨rfl, noReturn⟩)
    · exact reindented_of_noFeed noFeed (by simp)
    · exact (reindented_nil_eq_iff (by simp)).mpr noReturn

theorem Token.indented_of_ne_string {token : Token} (noString : ∀ content, token ≠ .string content) :
    token.indented indent = token := by
  cases token <;> first | rfl | exact absurd rfl (noString _)

theorem Token.map_indented_eq_iff {tokens : List Token} (oneLine : '\n' ∉ indent) :
    tokens.map (Token.indented indent) = tokens ↔ ∀ content, Token.string content ∈ tokens →
      '\n' ∉ content.toList ∨ indent = [] ∧ ¬['\r', '\n'] <:+: content.toList := by
  have each : tokens.map (Token.indented indent) = tokens ↔
      ∀ token ∈ tokens, token.indented indent = token := by
    simpa using List.map_inj_left (f := Token.indented indent) (g := id) (l := tokens)
  rw [each]
  constructor
  · exact fun kept content listed => (Token.indented_string_eq_iff oneLine).mp (kept _ listed)
  · intro oneLines token listed
    by_cases isString : ∃ content, token = .string content
    · obtain ⟨content, rfl⟩ := isString
      exact (Token.indented_string_eq_iff oneLine).mpr (oneLines content listed)
    · exact Token.indented_of_ne_string (not_exists.mp isString)

end

namespace Token

variable {token : Token} {written front rest indent : List Char} {tokens : List Token}

/-- Only comments and string literals are written with blanks. -/
theorem Lexer.Spelled.noBlank (spelled : Spelled token written rest)
    (noComment : token.isComment = false) (noString : ∀ content, token ≠ .string content) :
    ∀ c ∈ written, Text.isBlank c = false := by
  have digit : ∀ {c : Char}, c.isDigit = true → Text.isBlank c = false := fun isDigit =>
    not_isBlank_of_isWordPart (by simp [isWordPart, Char.isAlphanum, isDigit])
  have whole : ∀ {digits : List Char}, Whole digits → ∀ c ∈ digits, Text.isBlank c = false := by
    rintro digits (⟨first, others, rfl, isDigit, -, allDigits⟩ | rfl)
    · exact List.forall_mem_cons.mpr ⟨digit isDigit, fun c listed => digit (allDigits c listed)⟩
    · simp; decide
  have signs : ∀ c ∈ shortSigns ++ separators ++ brackets, Text.isBlank c = false :=
    List.all_iff_forall_prop.mp (by decide)
  cases spelled with
  | word starts goesOn ends =>
      refine List.forall_mem_cons.mpr ⟨not_isBlank_of_isWordPart ?_,
        fun c listed => not_isBlank_of_isWordPart (goesOn c listed)⟩
      simp only [isWordStart, Bool.or_eq_true] at starts
      rcases starts with isAlpha | isLine
      · simp [isWordPart, Char.isAlphanum, isAlpha]
      · simp [isWordPart, isLine]
  | int digits ends noFraction => exact whole digits
  | float digits nonempty allDigits ends =>
      refine List.forall_mem_append.mpr ⟨whole digits, List.forall_mem_cons.mpr ⟨by decide, ?_⟩⟩
      exact fun c listed => digit (allDigits c listed)
  | string each => exact absurd rfl (noString _)
  | longSign listed =>
      have visible : ∀ sign ∈ longSigns, sign.1.all (!Text.isBlank ·) = true := by decide
      have allVisible := List.all_eq_true.mp (visible _ listed)
      exact fun c listed => by simpa using allVisible c listed
  | shortSign listed short noOpening => simpa using signs _ (by simp [listed])
  | separator listed => simpa using signs _ (by simp [listed])
  | bracket listed => simpa using signs _ (by simp [listed])
  | lineComment plain ends => cases noComment
  | blockComment plain => cases noComment

theorem Lexer.Spelled.of_string {content : String} (spelled : Spelled (.string content) written rest) :
    Quoted false content.toList ∧ written = '"' :: (content.toList ++ ['"']) := by
  generalize same : Token.string content = token at spelled
  cases spelled with
  | string each =>
      obtain rfl := Token.string.inj same
      rw [String.toList_ofList]
      exact ⟨.of_parts each, rfl⟩
  | word starts goesOn ends =>
      unfold ofWord at same
      split at same
      · cases same
      · split at same <;> cases same
  | longSign listed =>
      have signs : ∀ sign ∈ longSigns, sign.2.isPlain = false := by decide
      simpa [← same, isPlain] using signs _ listed
  | @shortSign c rest listed short noComment =>
      have signs : ∀ c ∈ shortSigns, (ofShortSign c).isPlain = false :=
        List.all_iff_forall_prop.mp (by decide)
      simpa [← same, isPlain] using signs c listed
  | separator listed =>
      unfold ofSeparator at same
      split at same <;> cases same
  | bracket listed =>
      unfold ofBracket at same
      split at same <;> cases same
  | _ => cases same

theorem startsLike_reindented :
    StartsLike (front ++ rest) (reindented indent rest front ++ rest) := by
  induction front with
  | nil => exact .inl rfl
  | cons c front ih =>
      rw [reindented]
      split
      · rename_i dropped
        -- What takes the place of the carriage return is a line feed.
        refine .inr ⟨'\n', ?_, by decide⟩
        cases front with
        | nil => exact dropped.2
        | cons d front =>
            obtain rfl : d = '\n' := by simpa using dropped.2
            rw [reindented, if_neg (by simp)]
            rfl
      · exact .inl rfl

theorem followsLike_reindented :
    FollowsLike (front ++ rest) (reindented indent rest front ++ rest) := by
  refine ⟨startsLike_reindented, fun behind' shape => ?_⟩
  cases front with
  | nil => exact ⟨behind', shape, .inl rfl⟩
  | cons c front =>
      obtain rfl : c = '.' := by
        have isHead := startsLike_reindented.head (c := '.')
          (show (reindented indent rest (c :: front) ++ rest).head? = some '.' by rw [shape]; rfl)
          (by decide)
        exact Option.some.inj isHead
      rw [reindented, if_neg (by simp), if_neg (by simp)] at shape
      obtain rfl := (List.cons.inj shape).2
      exact ⟨front ++ rest, rfl, startsLike_reindented⟩

/-- A text with its lines indented is read as its tokens with their lines indented. -/
theorem Scans.reindented (scans : Scans front tokens rest)
    (apart : ¬[.sign .divide, .sign .times] <:+: tokens)
    (noComments : ∀ token ∈ tokens, token.isComment = false)
    (allBlank : ∀ c ∈ indent, Text.isBlank c = true) :
    Scans (reindented indent rest front) (tokens.map (Token.indented indent)) rest := by
  induction scans with
  | nil rest => exact .nil rest
  | @blank c front rest tokens isBlank following ih =>
      have others := ih apart noComments
      rw [QueryLoop.reindented]
      split
      · exact others
      · refine .blank isBlank (others.after_blanks fun d listed => ?_)
        split at listed
        · exact allBlank d listed
        · cases listed
  | @token token written front rest tokens spelled following ih =>
      obtain ⟨noComment, others⟩ := List.forall_mem_cons.mp noComments
      have behind := ih (fun inside => apart (inside.trans (List.suffix_cons _ _).isInfix)) others
      rw [reindented_append, List.map_cons]
      refine .token ?_ behind
      by_cases isString : ∃ content, token = .string content
      · obtain ⟨content, rfl⟩ := isString
        obtain ⟨quoted, rfl⟩ := spelled.of_string
        obtain ⟨parts, each, same⟩ := (quoted.reindented allBlank).exists_parts
        have inside : QueryLoop.reindented indent ['"'] content.toList = parts.flatten := same
        have name := Token.indented_string indent content.toList
        rw [String.ofList_toList, inside] at name
        have literal : QueryLoop.reindented indent (front ++ rest) ('"' :: (content.toList ++ ['"'])) =
            '"' :: (parts.flatten ++ ['"']) := by
          rw [QueryLoop.reindented, if_neg (by simp), if_neg (by simp), reindented_append,
            List.singleton_append, reindented_before (by decide) (by decide), inside,
            reindented_of_plain (by simp)]
          rfl
        rw [name, literal]
        exact .string each
      · have noString : ∀ content, token ≠ .string content := not_exists.mp isString
        have noBlank := spelled.noBlank noComment noString
        have same : token.indented indent = token := indented_of_ne_string noString
        have plain : ∀ c ∈ written, c ≠ '\r' ∧ c ≠ '\n' := by
          refine fun c listed => ⟨?_, ?_⟩ <;>
          · rintro rfl
            exact absurd (noBlank _ listed) (by decide)
        rw [same, reindented_of_plain plain]
        cases front with
        | nil => exact spelled
        | cons d front =>
            refine spelled.transfer followsLike_reindented ?_ (by simp [noComment])
            rintro rfl starts
            obtain ⟨more, rfl⟩ := following.head_times (startsLike_reindented.head starts (by decide))
            exact apart ⟨[], more, rfl⟩

end Token

/-- Every layout of the document ends with a character that is no blank. -/
def Layout.Doc.endsInText : Doc → Bool
  | text content => content.toList.getLast?.any (!Text.isBlank ·)
  | append _ second => second.endsInText
  | nest _ doc => doc.endsInText
  | group doc => doc.endsInText
  | _ => false

theorem Layout.Doc.exists_last {doc : Doc} {chars : List Char} (ends : doc.endsInText = true)
    (laid : doc.Lays chars) : ∃ front c, chars = front ++ [c] ∧ Text.isBlank c = false := by
  induction doc generalizing chars with
  | text content =>
      obtain rfl : chars = content.toList := laid
      obtain ⟨c, isLast, noBlank⟩ := (Option.any_eq_true _ _).mp ends
      obtain ⟨front, shape⟩ := List.getLast?_eq_some_iff.mp isLast
      exact ⟨front, c, shape, by simpa using noBlank⟩
  | append first second _ ih =>
      obtain ⟨front, back, rfl, -, laid⟩ := laid
      obtain ⟨more, c, rfl, noBlank⟩ := ih ends laid
      exact ⟨front ++ more, c, (List.append_assoc ..).symm, noBlank⟩
  | nest more doc ih => exact ih ends laid
  | group doc ih => exact ih ends laid
  | _ => cases ends

theorem endsInText_embeddedDoc (format : Format) (isBlock : Bool) (body : Doc) :
    (embeddedDoc format isBlock body).endsInText = body.endsInText := by
  cases isBlock <;> rfl

namespace Stmt

variable {format : Format} {indent : List Char}

theorem endsInText_doc (stmt : Stmt) : (stmt.doc format).endsInText = true := by
  induction stmt using children_induction with
  | step stmt ih =>
      cases stmt with
      | decl span declared =>
          obtain ⟨type, declarators⟩ := declared
          cases declarators <;> rfl
      | ifThen span cond body | whileLoop span cond body | foreach span type var varSpan seq body =>
          rw [Stmt.doc]
          exact (endsInText_embeddedDoc format _ _).trans (ih body (by simp [children]))
      | ifElse span cond body otherwise =>
          have own := ih otherwise (by simp [children])
          rw [Stmt.doc, elseDoc]
          split
          · exact own
          · exact (endsInText_embeddedDoc format _ _).trans own
      | returnValue span value => cases value <;> rfl
      | _ => rfl

/-- The text of a statement for a place is one of its layouts with the lines indented,
whatever follows it. -/
theorem exists_renderIndented (stmt : Stmt) (format : Format) (indent : List Char) :
    ∃ narrowed chars, (stmt.doc narrowed).Lays chars ∧
      ∀ rest, stmt.renderIndented format indent = reindented indent rest chars := by
  let narrowed := { format with width := max (format.width - Text.byteLength indent) 1 }
  have laid := lays_render (stmt.doc narrowed) narrowed.width
  obtain ⟨front, c, shape, noBlank⟩ := Doc.exists_last stmt.endsInText_doc laid
  have noReturn : c ≠ '\r' := by
    rintro rfl
    cases noBlank
  have noFeed : c ≠ '\n' := by
    rintro rfl
    cases noBlank
  refine ⟨narrowed, front ++ [c], shape ▸ laid, fun rest => ?_⟩
  have lines : stmt.renderIndented format indent = indentLines indent (textLines (front ++ [c])) :=
    congrArg (fun chars => indentLines indent (textLines chars)) shape
  rw [lines, indentLines_textLines indent (by simpa using noFeed), reindented_concat noReturn noFeed,
    reindented_concat noReturn noFeed]

/-- The text of a statement for a place is read as its tokens with their lines indented. -/
theorem scans_renderIndented (stmt : Stmt) (format : Format)
    (usable : ∀ token ∈ stmt.tokens, token.Usable)
    (allBlank : ∀ c ∈ indent, Text.isBlank c = true) (rest : List Char) :
    Scans (stmt.renderIndented format indent) (stmt.tokens.map (Token.indented indent)) rest := by
  obtain ⟨narrowed, chars, laid, same⟩ := stmt.exists_renderIndented format indent
  rw [same rest]
  exact (stmt.closes (fun token listed => (usable token listed).1) chars laid rest).reindented
    stmt.starsApart.noOpening (fun token listed => (usable token listed).2) allBlank

/-- The text of a loop starts with the word for it. -/
theorem head_renderIndented (loop : Loop) (format : Format) (indent : List Char) :
    (loop.toStmt.renderIndented format indent).head? = some 'f' := by
  obtain ⟨narrowed, chars, laid, same⟩ := loop.toStmt.exists_renderIndented format indent
  obtain ⟨others, rfl⟩ : ∃ others, chars = 'f' :: others := by
    obtain ⟨_, _, rfl, ⟨_, _, rfl, rfl, -⟩, -⟩ := laid
    exact ⟨_, rfl⟩
  rw [same [], reindented, if_neg (by simp)]
  rfl

end Stmt

end QueryLoop
