import Mathlib.Data.Bool.AllAny
import QueryLoop.Proofs.Place.Parsed
import QueryLoop.Proofs.Reading.Cleanly

namespace QueryLoop

open Parsing Parser

namespace Parsing.Parser

variable {τ α : Type} {front rest : List τ}

section
variable [DecidableEq τ]

theorem yields_satisfy {label : String} {holds : τ → Bool} {found : τ} (accepts : holds found = true) :
    (satisfy label holds).Yields [found] rest (· = found) := by
  intro cursor furthest used tail split spelled following
  obtain ⟨lexeme, rfl, rfl⟩ := List.map_eq_singleton_iff.mp spelled
  have shape : cursor.rest = lexeme :: tail := split
  exact ⟨lexeme.token, ⟨tail, cursor.index + 1, lexeme.span.stop, cursor.inputStop⟩, furthest,
    by simp [satisfy, Cursor.next?, shape, accepts], rfl, rfl⟩

theorem refuses_satisfy {label : String} {holds : τ → Bool}
    (refused : ∀ found ∈ front.head?, holds found = false) :
    (satisfy label holds).Refuses front := by
  intro cursor furthest spelled
  cases shape : cursor.rest with
  | nil => exact ⟨_, by simp only [satisfy, Cursor.next?, shape]; rfl⟩
  | cons lexeme tail =>
      rw [shape, List.map_cons] at spelled
      have fails : holds lexeme.token = false := refused _ (by rw [← spelled]; rfl)
      exact ⟨_, by simp only [satisfy, Cursor.next?, shape, fails]; rfl⟩

theorem reads_satisfy (label : String) (holds : τ → Bool) :
    (satisfy label holds).Reads fun used _ value =>
      used.map Lexeme.token = [value] ∧ holds value = true := by
  intro cursor furthest value after errors furthest' accepted
  unfold satisfy at accepted
  split at accepted
  · cases accepted
  · rename_i lexeme behind found
    split at accepted
    · rename_i accepts
      cases accepted
      exact ⟨[lexeme], .next found, fun _ => ⟨rfl, accepts⟩⟩
    · cases accepted

end

/-- Where a reader rejects that would accept a token with a property, there is none. -/
theorem head?_of_rejects {reader : Parser τ α} {holds : τ → Bool} {good : τ → α → Prop}
    {lexemes : List (Lexeme τ)} (rejects : reader.Rejects lexemes)
    (yields : ∀ found rest, holds found = true → reader.Yields [found] rest (good found)) :
    ∀ found ∈ (lexemes.map Lexeme.token).head?, holds found = false := by
  intro found isHead
  obtain ⟨rest, shape⟩ := List.head?_eq_some_iff.mp isHead
  cases accepts : holds found with
  | false => rfl
  | true => exact absurd (yields found rest accepts) (rejects.not_yields shape)

section
variable [DecidableEq τ]

theorem yields_anyToken (found : τ) : anyToken.Yields [found] rest (· = found) :=
  yields_select rfl

theorem yields_oneOf {wanted : List τ} {found : τ} (listed : found ∈ wanted) :
    (oneOf wanted).Yields [found] rest (· = found) :=
  yields_select (by simp [listed])

theorem refuses_oneOf {wanted : List τ} (other : ∀ found ∈ front.head?, found ∉ wanted) :
    (oneOf wanted).Refuses front :=
  refuses_select fun found isHead => by simp [other found isHead]

theorem reads_oneOf (wanted : List τ) : (oneOf wanted).Reads fun used _ value =>
    used.map Lexeme.token = [value] ∧ value ∈ wanted := by
  refine (reads_select _ _).mono ?_
  rintro used rest value ⟨lexeme, rfl, chosen⟩
  split at chosen
  · rename_i listed
    cases chosen
    exact ⟨rfl, listed⟩
  · cases chosen

/-- A token where another reader would not accept. -/
theorem yields_unless {also : Parser τ α} {found : τ} (refuses : also.Refuses (found :: rest)) :
    (andAlso anyToken (refuse also)).Yields [found] rest (· = found) := by
  intro cursor furthest used tail split spelled following
  obtain ⟨value, after, furthest', accepted, left, holds⟩ :=
    yields_anyToken found furthest split spelled following
  obtain ⟨failure, rejected⟩ := refuses none
    (show cursor.rest.map Lexeme.token = found :: rest by
      rw [split, List.map_append, spelled, following]; rfl)
  exact ⟨value, after, furthest', by simp only [andAlso, refuse, accepted, rejected], left, holds⟩

theorem refuses_unless {also : Parser τ α} {good : α → Prop} {front back : List τ}
    (yields : also.Yields front back good) :
    (andAlso anyToken (refuse also)).Refuses (front ++ back) := by
  intro cursor furthest spelled
  obtain ⟨used, tail, split, spelled₁, following⟩ := List.map_eq_append_iff.mp spelled
  obtain ⟨value, after, furthest', accepted, -⟩ := yields none split spelled₁ following
  cases first : anyToken cursor furthest with
  | rejected failure => exact ⟨failure, by simp only [andAlso, first]⟩
  | accepted value' after' errors furthest'' =>
      exact ⟨_, by simp only [andAlso, refuse, first, accepted]; rfl⟩

theorem reads_unless (also : Parser τ α) : (andAlso anyToken (refuse also)).Reads
    fun used rest value => used.map Lexeme.token = [value] ∧ also.Rejects (used ++ rest) := by
  intro cursor furthest value after errors furthest' accepted
  unfold andAlso at accepted
  split at accepted
  · cases accepted
  · rename_i found behind errors' furthest₁ first
    split at accepted
    · cases accepted
    · rename_i second
      cases accepted
      obtain ⟨used, taken, held⟩ := reads_select some [.anything] first
      refine ⟨used, taken, fun clean => ?_⟩
      obtain ⟨lexeme, rfl, chosen⟩ := held clean
      cases chosen
      unfold refuse at second
      split at second
      · rename_i failure rejected
        exact ⟨rfl, cursor, none, failure, taken.rest, rejected⟩
      · cases second

end

end Parsing.Parser

namespace Token.Lexer

variable {rest : List Char}

def isWordStart (c : Char) : Bool :=
  c.isAlpha || c == '_'

def isWordPart (c : Char) : Bool :=
  c.isAlphanum || c == '_'

/-- `0`, or digits that do not start with it. -/
def Whole (digits : List Char) : Prop :=
  (∃ first others, digits = first :: others ∧ first.isDigit = true ∧ first ≠ '0' ∧
    ∀ c ∈ others, c.isDigit = true) ∨ digits = ['0']

/-- The text does not start with a digit. -/
def NoDigit (chars : List Char) : Prop :=
  ∀ c ∈ chars.head?, c.isDigit = false

/-- The text does not start like the part of a number behind the dot. -/
def NoFraction (chars : List Char) : Prop :=
  ∀ behind, chars = '.' :: behind → NoDigit behind

/-- A character of a string literal, or an escape of two characters. -/
def StringPart (part : List Char) : Prop :=
  (∃ c, c ≠ '\\' ∧ c ≠ '"' ∧ part = [c]) ∨ ∃ c, part = ['\\', c]

/-- The end of a line, or of the text. -/
def LineEnding (ending rest : List Char) : Prop :=
  ending = ['\r', '\n'] ∨
    (∃ c, ending = [c] ∧ Text.isLineEnd c = true ∧ (c = '\r' → rest.head? ≠ some '\n')) ∨
    ending = [] ∧ rest = []

/-- The first end of a comment is the one behind the text. -/
def NoCommentEnd (text : List Char) : Prop :=
  ∀ before c behind, text = before ++ c :: behind →
    ¬['*', '/'] <+: c :: (behind ++ ['*', '/'])

/-- The text starts with a comment. -/
def OpensComment (chars : List Char) : Prop :=
  ['/', '/'] <+: chars ∨ ∃ text rest, chars = '/' :: '*' :: (text ++ '*' :: '/' :: rest)

def ofSeparator : Char → Token
  | ',' => .comma
  | '.' => .dot
  | _ => .semicolon

def ofBracket : Char → Token
  | '(' => .parenOpen
  | ')' => .parenClose
  | '\x7b' => .braceOpen
  | '\x7d' => .braceClose
  | '[' => .bracketOpen
  | _ => .bracketClose

def separators : List Char :=
  [',', '.', ';']

def brackets : List Char :=
  ['(', ')', '\x7b', '\x7d', '[', ']']

/-- `written` is read as the token where `rest` follows it: a word goes as far as it can,
a sign is not the start of a longer one, and no number goes on. -/
inductive Spelled : Token → (written rest : List Char) → Prop
  | word {first : Char} {others rest : List Char} (starts : isWordStart first = true)
      (goesOn : ∀ c ∈ others, isWordPart c = true) (ends : ∀ c ∈ rest.head?, isWordPart c = false) :
      Spelled (.ofWord (String.ofList (first :: others))) (first :: others) rest
  | int {digits rest : List Char} (whole : Whole digits) (ends : digits ≠ ['0'] → NoDigit rest)
      (noFraction : NoFraction rest) : Spelled (.int (String.ofList digits)) digits rest
  | float {digits fraction rest : List Char} (whole : Whole digits) (nonempty : fraction ≠ [])
      (allDigits : ∀ c ∈ fraction, c.isDigit = true) (ends : NoDigit rest) :
      Spelled (.float (String.ofList (digits ++ '.' :: fraction))) (digits ++ '.' :: fraction) rest
  | string {parts : List (List Char)} {rest : List Char} (each : ∀ part ∈ parts, StringPart part) :
      Spelled (.string (String.ofList parts.flatten)) ('"' :: (parts.flatten ++ ['"'])) rest
  | longSign {chars rest : List Char} {token : Token} (listed : (chars, token) ∈ longSigns) :
      Spelled token chars rest
  | shortSign {c : Char} {rest : List Char} (listed : c ∈ shortSigns)
      (short : ∀ sign ∈ longSigns, ¬sign.1 <+: c :: rest) (noComment : ¬OpensComment (c :: rest)) :
      Spelled (ofShortSign c) [c] rest
  | separator {c : Char} {rest : List Char} (listed : c ∈ separators) :
      Spelled (ofSeparator c) [c] rest
  | bracket {c : Char} {rest : List Char} (listed : c ∈ brackets) : Spelled (ofBracket c) [c] rest
  | lineComment {text ending rest : List Char} (plain : ∀ c ∈ text, Text.isLineEnd c = false)
      (ends : LineEnding ending rest) :
      Spelled (.lineComment (String.ofList text)) ('/' :: '/' :: (text ++ ending)) rest
  | blockComment {text rest : List Char} (plain : NoCommentEnd text) :
      Spelled (.blockComment (String.ofList text)) ('/' :: '*' :: (text ++ ['*', '/'])) rest

theorem yields_exactly (chars : List Char) : (exactly chars).Yields chars rest fun _ => True := by
  induction chars generalizing rest with
  | nil => exact Yields.pure () trivial
  | cons c chars ih => exact Yields.token_bind ih

theorem refuses_exactly {chars front : List Char} (different : ¬chars <+: front) :
    (exactly chars).Refuses front := by
  induction chars generalizing front with
  | nil => exact absurd (List.nil_prefix) different
  | cons c chars ih =>
      cases front with
      | nil => exact Refuses.bind_first (refuses_token (by simp))
      | cons d front =>
          by_cases same : c = d
          · subst same
            exact show Refuses _ ([c] ++ front) from Refuses.bind_second (yields_token c)
              fun _ _ => ih fun isPrefix => different (List.cons_prefix_cons.mpr ⟨rfl, isPrefix⟩)
          · exact Refuses.bind_first (refuses_token (by simpa using Ne.symm same))

theorem ensures_exactly (chars : List Char) : (exactly chars).Ensures fun used _ _ _ =>
    used.map Lexeme.token = chars := by
  induction chars with
  | nil =>
      refine (ensures_pure ()).mono ?_
      rintro used rest value errors ⟨rfl, -⟩
      rfl
  | cons c chars ih =>
      refine ((ensures_token c).bind fun _ => ih).mono ?_
      rintro used rest value errors ⟨_, own, _, _, _, rfl, -, ⟨lexeme, rfl, same, -⟩, held⟩
      simp [same, held]

theorem reads_exactly (chars : List Char) : (exactly chars).Reads fun used _ _ =>
    used.map Lexeme.token = chars :=
  reads_of_ensures (ensures_exactly chars)

/-- Several characters with a property, and then none. -/
theorem yields_many_satisfy {label : String} {holds : Char → Bool} {chars : List Char}
    (each : ∀ c ∈ chars, holds c = true) (ends : ∀ c ∈ rest.head?, holds c = false) :
    (many (satisfy label holds)).Yields chars rest (· = chars) := by
  have step : ∀ before c behind, chars = before ++ c :: behind →
      (satisfy label holds).Yields [c] ((behind.flatMap fun d => [d]) ++ rest)
        (fun found => id found = id c) :=
    fun _ c _ split => yields_satisfy (each c (by simp [split]))
  have read := Yields.many chars step (fun _ _ => List.cons_ne_nil _ _) (refuses_satisfy ends)
  rw [List.flatMap_singleton'] at read
  exact read.mono fun found alike => by simpa using eq_of_forall₂ alike

theorem reads_many_satisfy (label : String) (holds : Char → Bool) :
    (many (satisfy label holds)).Reads fun used rest chars => used.map Lexeme.token = chars ∧
      (∀ c ∈ chars, holds c = true) ∧ ∀ c ∈ (rest.map Lexeme.token).head?, holds c = false := by
  refine ((reads_satisfy label holds).many (satisfy_consumes label holds)).mono ?_
  rintro used rest chars ⟨series, rejects⟩
  refine ⟨?_, ?_, head?_of_rejects rejects fun _ _ => yields_satisfy⟩
  · clear rejects
    induction series with
    | nil rest => rfl
    | cons held following ih => simp [held.1, ih]
  · clear rejects
    induction series with
    | nil rest => simp
    | cons held following ih => exact List.forall_mem_cons.mpr ⟨held.2, ih⟩

theorem yields_wholeNumber {digits : List Char} (whole : Whole digits)
    (ends : digits ≠ ['0'] → NoDigit rest) : wholeNumber.Yields digits rest (· = digits) := by
  rcases whole with ⟨first, others, rfl, isDigit, nonzero, allDigits⟩ | rfl
  · have starts : (first.isDigit && first != '0') = true := by simp [isDigit, nonzero]
    have stops : NoDigit rest := ends (by simp [nonzero])
    refine Yields.orElse_left (Yields.bind [first] others rfl (yields_satisfy starts)
      fun _ same => ?_)
    refine (yields_many_satisfy allDigits stops).map fun _ same' => ?_
    rw [same, same']
  · refine Yields.orElse_right (Refuses.bind_first (refuses_satisfy (by simp))) ?_
    exact Yields.token_bind (Yields.pure ['0'] rfl)

theorem reads_wholeNumber : wholeNumber.Reads fun used rest digits =>
    used.map Lexeme.token = digits ∧ Whole digits ∧
      (digits ≠ ['0'] → NoDigit (rest.map Lexeme.token)) := by
  refine (((reads_satisfy _ _).bind fun first => (reads_many_satisfy _ _).bind fun others =>
    reads_pure (first :: others)).orElse ((reads_token '0').bind fun _ =>
      reads_pure ['0'])).mono ?_
  rintro used rest _ (⟨_, _, first, rfl, ⟨spelled, starts⟩, _, _, others, rfl, ⟨spelled', allDigits,
    ends⟩, rfl, rfl⟩ | ⟨-, _, _, _, rfl, ⟨lexeme, rfl, same⟩, rfl, rfl⟩)
  · simp only [Bool.and_eq_true, bne_iff_ne, ne_eq] at starts
    exact ⟨by simp [spelled, spelled'], .inl ⟨first, others, rfl, starts.1, starts.2, allDigits⟩,
      fun _ => ends⟩
  · exact ⟨by simp [same], .inr rfl, fun different => absurd rfl different⟩

theorem refuses_wholeNumber (noDigit : NoDigit rest) : wholeNumber.Refuses rest := by
  refine Refuses.orElse (Refuses.bind_first (refuses_satisfy fun c isHead => ?_))
    (Refuses.bind_first (refuses_token fun isHead => ?_))
  · simp [noDigit c isHead]
  · have isDigit := noDigit '0' isHead
    cases isDigit

theorem yields_float {digits fraction : List Char} (whole : Whole digits) (nonempty : fraction ≠ [])
    (allDigits : ∀ c ∈ fraction, c.isDigit = true) (ends : NoDigit rest) :
    float.Yields (digits ++ '.' :: fraction) rest
      (· = .float (String.ofList (digits ++ '.' :: fraction))) := by
  obtain ⟨first, others, rfl⟩ := List.exists_cons_of_ne_nil nonempty
  obtain ⟨isDigit, moreDigits⟩ := List.forall_mem_cons.mp allDigits
  have dot : digits ≠ ['0'] → NoDigit (('.' :: first :: others) ++ rest) := by
    intro _ c isHead
    obtain rfl : '.' = c := by simpa using isHead
    rfl
  refine Yields.bind _ _ rfl (yields_wholeNumber whole dot) fun _ same => Yields.token_bind ?_
  have fractionRead : (many1 digit).Yields (first :: others) rest (· = first :: others) := by
    refine Yields.bind [first] others rfl (yields_satisfy isDigit) fun _ same => ?_
    exact (yields_many_satisfy moreDigits ends).map fun _ same' => by rw [same, same']
  exact fractionRead.map fun _ same' => by rw [same, same']

theorem reads_float : float.Reads fun used rest token =>
    Spelled token (used.map Lexeme.token) (rest.map Lexeme.token) := by
  refine (reads_wholeNumber.bind fun digits => (reads_token '.').bind fun _ =>
    ((reads_satisfy _ _).bind fun first => (reads_many_satisfy _ _).bind fun others =>
      reads_pure (first :: others)).bind fun fraction => reads_pure _).mono ?_
  rintro used rest _ ⟨front, _, digits, rfl, ⟨spelled, whole, -⟩, _, _, _, rfl, ⟨dot, rfl, isDot⟩,
    _, _, _, rfl, ⟨one, _, first, rfl, ⟨spelled', isDigit⟩, more, _, others, rfl, ⟨spelled'',
    allDigits, ends⟩, rfl, rfl⟩, rfl, rfl⟩
  have written : (front ++ ([dot] ++ (one ++ (more ++ []) ++ []))).map Lexeme.token =
      digits ++ '.' :: first :: others := by
    simp [spelled, isDot, spelled', spelled'']
  rw [written]
  exact .float whole (List.cons_ne_nil _ _) (List.forall_mem_cons.mpr ⟨isDigit, allDigits⟩) ends

theorem refuses_float {digits : List Char} (whole : Whole digits)
    (ends : digits ≠ ['0'] → NoDigit rest) (noFraction : NoFraction rest) :
    float.Refuses (digits ++ rest) := by
  refine Refuses.bind_second (yields_wholeNumber whole ends) fun _ _ => ?_
  cases rest with
  | nil => exact Refuses.bind_first (refuses_token (by simp))
  | cons c behind =>
      by_cases isDot : c = '.'
      · subst isDot
        exact show Refuses _ (['.'] ++ behind) from Refuses.bind_second (yields_token '.')
          fun _ _ => Refuses.bind_first (Refuses.bind_first
            (refuses_satisfy (noFraction behind rfl)))
      · exact Refuses.bind_first (refuses_token (by simpa using isDot))

/-- Where no number with a dot is read behind digits, there is none. -/
theorem noFraction_of_rejects {digits : List Char} {lexemes : List (Lexeme Char)}
    (rejects : float.Rejects lexemes) (whole : Whole digits) (rest : List Char)
    (spelled : lexemes.map Lexeme.token = digits ++ rest) : NoFraction rest := by
  rintro behind rfl
  have dot : digits ≠ ['0'] → NoDigit ('.' :: behind) := by
    intro _ c isHead
    obtain rfl : '.' = c := by simpa using isHead
    rfl
  obtain ⟨_, tail, spelled', -, rejects⟩ := rejects.behind spelled (yields_wholeNumber whole dot)
  obtain ⟨_, tail, rfl, -, rejects⟩ := rejects.behind
    (show tail.map Lexeme.token = ['.'] ++ behind from spelled') (yields_token '.')
  have noDigit := (rejects.of_bind fun _ => total_pure _).of_bind fun _ =>
    (total_many _).bind fun _ => total_pure _
  exact head?_of_rejects noDigit fun _ _ => yields_satisfy

theorem yields_stringPart {part : List Char} (isPart : StringPart part) :
    stringPart.Yields part rest (· = part) := by
  rcases isPart with ⟨c, noEscape, noQuote, rfl⟩ | ⟨c, rfl⟩
  · have read : (noneOf ['\\', '"']).Yields [c] rest (· = c) :=
      yields_select (by simp [noEscape, noQuote])
    exact Yields.orElse_left (read.map fun _ same => by rw [same])
  · refine Yields.orElse_right (Refuses.bind_first (refuses_select (by simp))) ?_
    exact Yields.token_bind ((yields_anyToken c).map fun _ same => by rw [same])

theorem reads_stringPart : stringPart.Reads fun used _ part =>
    used.map Lexeme.token = part ∧ StringPart part := by
  refine (((reads_select _ _).bind fun c => reads_pure [c]).orElse ((reads_token '\\').bind fun _ =>
    (reads_select _ _).bind fun c => reads_pure ['\\', c])).mono ?_
  rintro used rest _ (⟨_, _, c, rfl, ⟨lexeme, rfl, chosen⟩, rfl, rfl⟩ |
    ⟨-, _, _, _, rfl, ⟨mark, rfl, isMark⟩, _, _, c, rfl, ⟨lexeme, rfl, chosen⟩, rfl, rfl⟩)
  · split at chosen
    · cases chosen
    · rename_i plain
      cases chosen
      simp only [List.mem_cons, List.not_mem_nil, or_false, not_or] at plain
      exact ⟨by simp, .inl ⟨_, plain.1, plain.2, rfl⟩⟩
  · cases chosen
    exact ⟨by simp [isMark], .inr ⟨_, rfl⟩⟩

theorem stringPart_consumes : stringPart.Ensures Consumes :=
  orElse_ensures (bind_consumes (select_consumes _ _) fun _ => advances_of (ensures_pure _))
    (bind_consumes (token_consumes _) fun _ =>
      advances_of ((select_consumes _ _).bind fun _ => ensures_pure _))

theorem yields_string {parts : List (List Char)} (each : ∀ part ∈ parts, StringPart part) :
    string.Yields ('"' :: (parts.flatten ++ ['"'])) rest
      (· = .string (String.ofList parts.flatten)) := by
  have step : ∀ before part behind, parts = before ++ part :: behind →
      stringPart.Yields part ((behind.flatMap id) ++ '"' :: rest)
        (fun found => id found = id part) :=
    fun _ part _ split => yields_stringPart (each part (by simp [split]))
  have nonempty : ∀ part ∈ parts, id part ≠ [] := by
    intro part listed
    rcases each part listed with ⟨c, -, -, rfl⟩ | ⟨c, rfl⟩ <;> simp
  have stops : stringPart.Refuses ('"' :: rest) :=
    Refuses.orElse (Refuses.bind_first (refuses_select (by simp)))
      (Refuses.bind_first (refuses_token (by simp)))
  have inside : (many stringPart).Yields (parts.flatMap id) ('"' :: rest)
      (List.Forall₂ (fun part found => id found = id part) parts) :=
    Yields.many parts step nonempty stops
  rw [← List.flatten_eq_flatMap] at inside
  refine (Yields.between inside).map fun found alike => ?_
  have same : found = parts := by simpa using eq_of_forall₂ alike
  rw [same]

theorem parts_of_series {used rest : List (Lexeme Char)} {parts : List (List Char)}
    (series : Series (fun used _ part => used.map Lexeme.token = part ∧ StringPart part) used rest
      parts) :
    used.map Lexeme.token = parts.flatten ∧ ∀ part ∈ parts, StringPart part := by
  induction series with
  | nil rest => exact ⟨rfl, by simp⟩
  | cons held following ih =>
      exact ⟨by simp [held.1, ih.1], List.forall_mem_cons.mpr ⟨held.2, ih.2⟩⟩

theorem reads_string : string.Reads fun used rest token =>
    Spelled token (used.map Lexeme.token) (rest.map Lexeme.token) := by
  refine (((reads_stringPart.many stringPart_consumes).between '"' '"').bind fun parts =>
    reads_pure _).mono ?_
  rintro used rest _ ⟨_, _, parts, rfl, ⟨opening, inside, closing, rfl, opened, closed, series, -⟩,
    rfl, rfl⟩
  obtain ⟨spelled, each⟩ := parts_of_series series
  have written : (opening :: (inside ++ [closing]) ++ []).map Lexeme.token =
      '"' :: (parts.flatten ++ ['"']) := by
    simp [opened, closed, spelled]
  rw [written]
  exact .string each

theorem yields_word {first : Char} {others : List Char} (starts : isWordStart first = true)
    (goesOn : ∀ c ∈ others, isWordPart c = true) (ends : ∀ c ∈ rest.head?, isWordPart c = false) :
    word.Yields (first :: others) rest (· = .ofWord (String.ofList (first :: others))) := by
  refine Yields.bind [first] others rfl (yields_satisfy starts) fun _ same => ?_
  exact (yields_many_satisfy goesOn ends).map fun _ same' => by rw [same, same']

theorem reads_word : word.Reads fun used rest token =>
    Spelled token (used.map Lexeme.token) (rest.map Lexeme.token) := by
  refine ((reads_satisfy _ _).bind fun first => (reads_many_satisfy _ _).bind fun others =>
    reads_pure _).mono ?_
  rintro used rest _ ⟨one, _, first, rfl, ⟨spelled, starts⟩, more, _, others, rfl, ⟨spelled', goesOn,
    ends⟩, rfl, rfl⟩
  have written : (one ++ (more ++ [])).map Lexeme.token = first :: others := by
    simp [spelled, spelled']
  rw [written]
  exact .word starts goesOn ends

theorem yields_anyOf_listed {signs : List (List Char × Token)} {otherwise : Parser Char Token}
    {chars : List Char} {token : Token} (listed : (chars, token) ∈ signs)
    (distinct : ∀ sign ∈ signs, sign.1 <+: chars ++ rest → sign = (chars, token)) :
    (anyOf signs otherwise).Yields chars rest (· = token) := by
  induction signs with
  | nil => cases listed
  | cons sign signs ih =>
      obtain ⟨found, result⟩ := sign
      by_cases starts : found <+: chars ++ rest
      · cases distinct _ List.mem_cons_self starts
        exact Yields.orElse_left ((yields_exactly chars).map fun _ _ => rfl)
      · have later : (chars, token) ∈ signs := by
          rcases List.mem_cons.mp listed with same | later
          · cases same
            exact absurd (List.prefix_append chars rest) starts
          · exact later
        refine Yields.orElse_right (Refuses.bind_first (refuses_exactly starts)) (ih later ?_)
        exact fun sign inside => distinct sign (List.mem_cons_of_mem _ inside)

theorem anyOf_of_refused {signs : List (List Char × Token)} {otherwise : Parser Char Token}
    {front : List Char} {good : Token → Prop} (none_starts : ∀ sign ∈ signs, ¬sign.1 <+: front ++ rest)
    (last : otherwise.Yields front rest good) : (anyOf signs otherwise).Yields front rest good := by
  induction signs with
  | nil => exact last
  | cons sign signs ih =>
      obtain ⟨noFirst, noOther⟩ := List.forall_mem_cons.mp none_starts
      exact Yields.orElse_right (Refuses.bind_first (refuses_exactly noFirst)) (ih noOther)

theorem refuses_anyOf {signs : List (List Char × Token)} {otherwise : Parser Char Token}
    {front : List Char} (none_starts : ∀ sign ∈ signs, ¬sign.1 <+: front)
    (last : otherwise.Refuses front) : (anyOf signs otherwise).Refuses front := by
  induction signs with
  | nil => exact last
  | cons sign signs ih =>
      obtain ⟨noFirst, noOther⟩ := List.forall_mem_cons.mp none_starts
      exact Refuses.orElse (Refuses.bind_first (refuses_exactly noFirst)) (ih noOther)

theorem reads_anyOf {otherwise : Parser Char Token} {post : CleanPost Char Token}
    (last : otherwise.Reads post) (signs : List (List Char × Token)) :
    (anyOf signs otherwise).Reads fun used rest token =>
      (used.map Lexeme.token, token) ∈ signs ∨
        post used rest token ∧ ∀ sign ∈ signs, ¬sign.1 <+: (used ++ rest).map Lexeme.token := by
  induction signs with
  | nil => exact last.mono fun _ _ _ held => .inr ⟨held, by simp⟩
  | cons sign signs ih =>
      obtain ⟨chars, result⟩ := sign
      refine (((reads_exactly chars).bind fun _ => reads_pure result).orElse ih).mono ?_
      rintro used rest _ (⟨front, _, _, rfl, spelled, rfl, rfl⟩ | ⟨rejects, held⟩)
      · exact .inl (by simp [spelled])
      · refine held.imp (List.mem_cons_of_mem _) fun ⟨held, noOther⟩ => ⟨held, ?_⟩
        refine List.forall_mem_cons.mpr ⟨fun starts => ?_, noOther⟩
        obtain ⟨behind, shape⟩ := starts
        exact rejects.not_yields shape.symm ((yields_exactly chars).map fun _ _ => rfl :
          Yields _ _ _ (· = result))

theorem longSigns_distinct {chars : List Char} {token : Token} (listed : (chars, token) ∈ longSigns) :
    ∀ sign ∈ longSigns, sign.1 <+: chars ++ rest → sign = (chars, token) := by
  intro sign listed' starts
  have length : ∀ sign ∈ longSigns, sign.1.length = 2 := by decide
  have apart : ∀ first ∈ longSigns, ∀ second ∈ longSigns, first.1 = second.1 → first = second := by
    decide
  refine apart sign listed' _ listed ?_
  have same := List.prefix_iff_eq_take.mp starts
  rw [length sign listed', ← length _ listed, List.take_left] at same
  exact same

theorem refuses_operator {front : List Char} (other : ∀ c ∈ front.head?, c ∉ shortSigns) :
    operator.Refuses front := by
  refine refuses_anyOf ?_ (Refuses.bind_first (refuses_oneOf other))
  rintro sign listed ⟨behind, rfl⟩
  have starts : ∀ sign ∈ longSigns, sign.1.head?.any (· ∈ shortSigns) = true := by decide
  obtain ⟨c, isHead, short⟩ := (Option.any_eq_true _ _).mp (starts sign listed)
  refine other c ?_ (of_decide_eq_true short)
  cases shape : sign.1 with
  | nil => simp [shape] at isHead
  | cons first others => simpa [shape] using isHead

theorem reads_operator : operator.Reads fun used rest token =>
    ¬OpensComment ((used ++ rest).map Lexeme.token) →
      Spelled token (used.map Lexeme.token) (rest.map Lexeme.token) := by
  refine (reads_anyOf ((reads_oneOf shortSigns).bind fun c => reads_pure (ofShortSign c))
    longSigns).mono ?_
  rintro used rest token (long | ⟨⟨front, _, c, rfl, ⟨spelled, listed⟩, rfl, rfl⟩, noLong⟩) plain
  · exact .longSign long
  · simp only [List.append_nil, List.map_append, spelled] at noLong plain ⊢
    exact .shortSign listed noLong plain

theorem yields_lineEnd {ending : List Char}
    (ends : ending = ['\r', '\n'] ∨ ∃ c, ending = [c] ∧ Text.isLineEnd c = true ∧
      (c = '\r' → rest.head? ≠ some '\n')) : lineEnd.Yields ending rest fun _ => True := by
  intro cursor furthest used tail split spelled following
  rcases ends with rfl | ⟨c, rfl, isEnd, alone⟩
  · obtain ⟨first, others, rfl, isReturn, spelled⟩ := List.map_eq_cons_iff.mp spelled
    obtain ⟨second, rfl, isFeed⟩ := List.map_eq_singleton_iff.mp spelled
    have shape : cursor.rest = first :: second :: tail := split
    exact ⟨(), _, furthest, by simp [lineEnd, Cursor.next?, shape, isReturn, isFeed]; rfl, rfl, trivial⟩
  · obtain ⟨lexeme, rfl, rfl⟩ := List.map_eq_singleton_iff.mp spelled
    have shape : cursor.rest = lexeme :: tail := split
    by_cases isReturn : lexeme.token = '\r'
    · cases tail with
      | nil =>
          exact ⟨(), _, furthest, by simp [lineEnd, Cursor.next?, shape, isReturn]; rfl, rfl, trivial⟩
      | cons next tail =>
          have noFeed : next.token ≠ '\n' := by
            intro isFeed
            exact alone isReturn (by rw [← following, List.map_cons, isFeed]; rfl)
          exact ⟨(), _, furthest, by simp [lineEnd, Cursor.next?, shape, isReturn, noFeed]; rfl, rfl,
            trivial⟩
    · exact ⟨(), _, furthest, by simp [lineEnd, Cursor.next?, shape, isReturn, isEnd]; rfl, rfl,
        trivial⟩

theorem reads_lineEnd : lineEnd.Reads fun used rest _ =>
    used.map Lexeme.token = ['\r', '\n'] ∨ ∃ c, used.map Lexeme.token = [c] ∧
      Text.isLineEnd c = true ∧ (c = '\r' → (rest.map Lexeme.token).head? ≠ some '\n') := by
  intro cursor furthest value after errors furthest' accepted
  unfold lineEnd at accepted
  split at accepted
  · cases accepted
  · rename_i lexeme behind found
    split at accepted
    · rename_i isReturn
      split at accepted
      · rename_i following last found'
        split at accepted
        · rename_i isFeed
          cases accepted
          exact ⟨_, (Cursor.Takes.next found).trans (.next found'), fun _ =>
            .inl (by simp [isReturn, isFeed])⟩
        · rename_i noFeed
          cases accepted
          refine ⟨_, .next found, fun _ => .inr ⟨_, rfl, by rw [isReturn]; rfl, fun _ => ?_⟩⟩
          rw [(Cursor.Takes.next found').rest]
          simpa using noFeed
      · rename_i none_left
        cases accepted
        refine ⟨_, .next found, fun _ => .inr ⟨_, rfl, by rw [isReturn]; rfl, fun _ => ?_⟩⟩
        unfold Cursor.next? at none_left
        split at none_left
        · rename_i shape
          simp [shape]
        · cases none_left
    · rename_i noReturn
      split at accepted
      · rename_i isEnd
        cases accepted
        exact ⟨_, .next found, fun _ => .inr ⟨_, rfl, isEnd, fun isReturn => absurd isReturn noReturn⟩⟩
      · cases accepted

theorem yields_lineStop {ending : List Char} (ends : LineEnding ending rest) :
    lineStop.Yields ending rest fun _ => True := by
  rcases ends with pair | single | ⟨rfl, rfl⟩
  · exact Yields.orElse_left (yields_lineEnd (.inl pair))
  · exact Yields.orElse_left (yields_lineEnd (.inr single))
  · intro cursor furthest used tail split spelled following
    obtain rfl := List.map_eq_nil_iff.mp spelled
    obtain rfl := List.map_eq_nil_iff.mp following
    have shape : cursor.rest = [] := split
    change ∃ value after furthest', Parser.orElse lineEnd (fun _ => endOfInput) cursor furthest = _ ∧ _
    exact ⟨(), cursor, _, by simp [Parser.orElse, lineEnd, Cursor.next?, shape, endOfInput]; rfl,
      shape, trivial⟩

theorem refuses_lineStop {c : Char} (inside : Text.isLineEnd c = false) :
    lineStop.Refuses (c :: rest) := by
  intro cursor furthest spelled
  obtain ⟨lexeme, tail, shape, rfl, -⟩ := List.map_eq_cons_iff.mp spelled
  have noReturn : lexeme.token ≠ '\r' := by
    intro isReturn
    rw [isReturn] at inside
    cases inside
  change ∃ failure, Parser.orElse lineEnd (fun _ => endOfInput) cursor furthest = _
  exact ⟨_, by simp [Parser.orElse, lineEnd, Cursor.next?, shape, noReturn, inside, endOfInput]; rfl⟩

theorem reads_lineStop : lineStop.Reads fun used rest _ =>
    LineEnding (used.map Lexeme.token) (rest.map Lexeme.token) := by
  have atEnd : (endOfInput : Parser Char Unit).Reads fun used rest _ => used = [] ∧ rest = [] := by
    intro cursor furthest value after errors furthest' accepted
    unfold endOfInput at accepted
    split at accepted
    · rename_i none_left
      cases accepted
      exact ⟨[], .refl cursor, fun _ => ⟨rfl, none_left⟩⟩
    · cases accepted
  refine (reads_lineEnd.orElse atEnd).mono ?_
  rintro used rest value ((pair | single) | ⟨-, rfl, rfl⟩)
  · exact .inl pair
  · exact .inr (.inl single)
  · exact .inr (.inr ⟨rfl, rfl⟩)

/-- Where `stop` is refused at each character of the text and accepted behind it, what is
read up to it is the text. -/
theorem yields_until {β : Type} {stop : Parser Char β} {good : β → Prop} {text ending : List Char}
    (refused : ∀ before c behind, text = before ++ c :: behind →
      stop.Refuses (c :: (behind ++ (ending ++ rest))))
    (ends : stop.Yields ending rest good) :
    (Parser.many (andAlso anyToken (refuse stop))).Yields text (ending ++ rest) (· = text) := by
  have step : ∀ before c behind, text = before ++ c :: behind →
      (andAlso anyToken (refuse stop)).Yields [c] ((behind.flatMap fun d => [d]) ++
        (ending ++ rest)) (fun found => id found = id c) := by
    intro before c behind split
    rw [List.flatMap_singleton']
    exact yields_unless (refused before c behind split)
  have read := Yields.many text step (fun _ _ => List.cons_ne_nil _ _) (refuses_unless ends)
  rw [List.flatMap_singleton'] at read
  exact read.mono fun found alike => by simpa using eq_of_forall₂ alike

theorem yields_lineComment {text ending : List Char} (plain : ∀ c ∈ text, Text.isLineEnd c = false)
    (ends : LineEnding ending rest) :
    lineComment.Yields ('/' :: '/' :: (text ++ ending)) rest
      (· = .lineComment (String.ofList text)) := by
  have refused : ∀ before c behind, text = before ++ c :: behind →
      lineStop.Refuses (c :: (behind ++ (ending ++ rest))) :=
    fun _ c _ split => refuses_lineStop (plain c (by simp [split]))
  have inside := yields_until refused (yields_lineStop ends)
  refine Yields.bind ['/', '/'] _ rfl (yields_exactly _) fun _ _ => ?_
  refine Yields.bind text ending rfl inside fun found same => ?_
  exact (yields_lineStop ends).map fun _ _ => by rw [same]

theorem chars_of_series {also : Parser Char Unit} {used rest : List (Lexeme Char)} {text : List Char}
    (series : Series (fun used rest c => used.map Lexeme.token = [c] ∧ also.Rejects (used ++ rest))
      used rest text) :
    used.map Lexeme.token = text ∧ ∀ before c behind, text = before ++ c :: behind →
      ∃ lexemes : List (Lexeme Char), also.Rejects lexemes ∧
        lexemes.map Lexeme.token = c :: (behind ++ rest.map Lexeme.token) := by
  induction series with
  | nil rest => exact ⟨rfl, by simp⟩
  | @cons used more rest c text held following ih =>
      obtain ⟨spelled, rejects⟩ := held
      obtain ⟨spelled', others⟩ := ih
      refine ⟨by simp [spelled, spelled'], fun before d behind split => ?_⟩
      cases before with
      | nil =>
          obtain ⟨rfl, rfl⟩ := List.cons.inj split
          exact ⟨_, rejects, by simp [spelled, spelled']⟩
      | cons first before =>
          obtain ⟨-, rfl⟩ := List.cons.inj split
          exact others before d behind rfl

theorem isLineEnd_of_rejects {lexemes : List (Lexeme Char)} {c : Char} {tail : List Char}
    (rejects : lineStop.Rejects lexemes) (shape : lexemes.map Lexeme.token = c :: tail) :
    Text.isLineEnd c = false := by
  cases isEnd : Text.isLineEnd c with
  | false => rfl
  | true =>
      exfalso
      by_cases pair : c = '\r' ∧ tail.head? = some '\n'
      · obtain ⟨rfl, isFeed⟩ := pair
        obtain ⟨behind, rfl⟩ := List.head?_eq_some_iff.mp isFeed
        exact rejects.not_yields (show _ = ['\r', '\n'] ++ behind from shape)
          (yields_lineStop (.inl rfl))
      · exact rejects.not_yields (show _ = [c] ++ tail from shape)
          (yields_lineStop (.inr (.inl ⟨c, rfl, isEnd, fun isReturn isFeed =>
            pair ⟨isReturn, isFeed⟩⟩)))

theorem reads_lineComment : lineComment.Reads fun used rest token =>
    Spelled token (used.map Lexeme.token) (rest.map Lexeme.token) := by
  refine ((reads_exactly ['/', '/']).bind fun _ => ((reads_unless lineStop).many
    ((select_consumes _ _).andAlso)).bind fun text => reads_lineStop.bind fun _ =>
      reads_pure _).mono ?_
  rintro used rest _ ⟨front, _, _, rfl, slashes, own, _, text, rfl, ⟨series, -⟩, ending, _, _, rfl,
    ends, rfl, rfl⟩
  obtain ⟨spelled, each⟩ := chars_of_series series
  have written : (front ++ (own ++ (ending ++ []))).map Lexeme.token =
      '/' :: '/' :: (text ++ ending.map Lexeme.token) := by
    simp [slashes, spelled]
  rw [written]
  refine .lineComment (fun c listed => ?_) ends
  obtain ⟨before, behind, rfl⟩ := List.append_of_mem listed
  obtain ⟨lexemes, rejects, shape⟩ := each before c behind rfl
  exact isLineEnd_of_rejects rejects shape

theorem yields_blockComment {text : List Char} (plain : NoCommentEnd text) :
    blockComment.Yields ('/' :: '*' :: (text ++ ['*', '/'])) rest
      (· = .blockComment (String.ofList text)) := by
  have refused : ∀ before c behind, text = before ++ c :: behind →
      (exactly ['*', '/']).Refuses (c :: (behind ++ (['*', '/'] ++ rest))) := by
    intro before c behind split
    refine refuses_exactly fun starts => plain before c behind split ?_
    rw [← List.append_assoc] at starts
    exact List.prefix_of_prefix_length_le starts (List.prefix_append (c :: (behind ++ ['*', '/'])) rest)
      (by simp)
  have inside := yields_until refused (yields_exactly ['*', '/'])
  refine Yields.bind ['/', '*'] _ rfl (yields_exactly _) fun _ _ => ?_
  refine Yields.bind text ['*', '/'] rfl inside fun found same => ?_
  exact (yields_exactly ['*', '/']).map fun _ _ => by rw [same]

theorem reads_blockComment : blockComment.Reads fun used rest token =>
    Spelled token (used.map Lexeme.token) (rest.map Lexeme.token) := by
  refine ((reads_exactly ['/', '*']).bind fun _ => ((reads_unless (exactly ['*', '/'])).many
    ((select_consumes _ _).andAlso)).bind fun text => (reads_exactly ['*', '/']).bind fun _ =>
      reads_pure _).mono ?_
  rintro used rest _ ⟨front, _, _, rfl, opened, own, _, text, rfl, ⟨series, -⟩, ending, _, _, rfl,
    closed, rfl, rfl⟩
  obtain ⟨spelled, each⟩ := chars_of_series series
  have written : (front ++ (own ++ (ending ++ []))).map Lexeme.token =
      '/' :: '*' :: (text ++ ['*', '/']) := by
    simp [opened, spelled, closed]
  rw [written]
  refine .blockComment fun before c behind split starts => ?_
  obtain ⟨lexemes, rejects, shape⟩ := each before c behind split
  obtain ⟨tail, shape'⟩ := starts
  refine rejects.not_yields (?_ : _ = ['*', '/'] ++ (tail ++ rest.map Lexeme.token))
    (yields_exactly ['*', '/'])
  rw [shape, ← List.append_assoc, shape']
  simp [closed]

theorem refuses_blockComment {front : List Char}
    (different : ∀ text rest, front ≠ '/' :: '*' :: (text ++ '*' :: '/' :: rest)) :
    blockComment.Refuses front := by
  have ensured : blockComment.Ensures fun used _ _ _ =>
      ∃ text, used.map Lexeme.token = '/' :: '*' :: (text ++ ['*', '/']) := by
    refine ((ensures_exactly ['/', '*']).bind fun _ => (many_advances
      ((select_consumes _ _).andAlso)).bind fun text => (ensures_exactly ['*', '/']).bind fun _ =>
        ensures_pure _).mono ?_
    rintro used rest _ _ ⟨front, _, _, _, _, rfl, -, opened, own, _, _, _, _, rfl, -, -, ending, _, _,
      _, _, rfl, -, closed, rfl, -⟩
    exact ⟨own.map Lexeme.token, by simp [opened, closed]⟩
  refine refuses_of_ensures ensured ?_
  rintro used tail token errors shape ⟨text, spelled⟩
  refine different text (tail.map Lexeme.token) ?_
  rw [← shape, List.map_append, spelled]
  simp

/-- Every line ends somewhere. -/
theorem exists_lineEnding (chars : List Char) : ∃ text ending rest,
    chars = text ++ (ending ++ rest) ∧ (∀ c ∈ text, Text.isLineEnd c = false) ∧
      LineEnding ending rest := by
  induction chars with
  | nil => exact ⟨[], [], [], rfl, by simp, .inr (.inr ⟨rfl, rfl⟩)⟩
  | cons c chars ih =>
      cases isEnd : Text.isLineEnd c with
      | false =>
          obtain ⟨text, ending, rest, rfl, plain, ends⟩ := ih
          exact ⟨c :: text, ending, rest, rfl, List.forall_mem_cons.mpr ⟨isEnd, plain⟩, ends⟩
      | true =>
          by_cases pair : c = '\r' ∧ chars.head? = some '\n'
          · obtain ⟨rfl, isFeed⟩ := pair
            obtain ⟨behind, rfl⟩ := List.head?_eq_some_iff.mp isFeed
            exact ⟨[], ['\r', '\n'], behind, rfl, by simp, .inl rfl⟩
          · exact ⟨[], [c], chars, rfl, by simp, .inr (.inl ⟨c, rfl, isEnd, fun isReturn isFeed =>
              pair ⟨isReturn, isFeed⟩⟩)⟩

/-- Of the places where a comment could end there is a first one. -/
theorem exists_commentEnd (text rest : List Char) : ∃ text' rest',
    text ++ '*' :: '/' :: rest = text' ++ '*' :: '/' :: rest' ∧ NoCommentEnd text' := by
  induction text with
  | nil => exact ⟨[], rest, rfl, by simp [NoCommentEnd]⟩
  | cons c text ih =>
      by_cases here : ['*', '/'] <+: c :: (text ++ '*' :: '/' :: rest)
      · obtain ⟨rest', shape⟩ := here
        exact ⟨[], rest', shape.symm, by simp [NoCommentEnd]⟩
      · obtain ⟨text', rest', same, plain⟩ := ih
        refine ⟨c :: text', rest', by rw [List.cons_append, same]; rfl, ?_⟩
        intro before d behind split
        cases before with
        | nil =>
            obtain ⟨rfl, rfl⟩ := List.cons.inj split
            refine fun starts => here ?_
            rw [same]
            obtain ⟨tail, shape⟩ := starts
            refine ⟨tail ++ rest', ?_⟩
            rw [← List.append_assoc, shape]
            simp
        | cons first before =>
            obtain ⟨-, rfl⟩ := List.cons.inj split
            exact plain before d behind rfl

theorem not_opensComment_of_rejects {lexemes : List (Lexeme Char)}
    (noLine : lineComment.Rejects lexemes) (noBlock : blockComment.Rejects lexemes) :
    ¬OpensComment (lexemes.map Lexeme.token) := by
  rintro (⟨behind, shape⟩ | ⟨text, rest, shape⟩)
  · obtain ⟨text, ending, rest, rfl, plain, ends⟩ := exists_lineEnding behind
    refine noLine.not_yields ?_ (yields_lineComment plain ends)
    rw [← shape]
    simp
  · obtain ⟨text', rest', same, plain⟩ := exists_commentEnd text rest
    refine noBlock.not_yields (?_ : _ = _ ++ rest') (yields_blockComment plain)
    rw [shape, same]
    simp

/-- What starts no comment and no number is a string, a word or a sign. -/
theorem yields_one_of_plain {front : List Char} {good : Token → Prop}
    (noComment : ¬OpensComment (front ++ rest)) (noDigit : NoDigit (front ++ rest))
    (late : (string <|> word <|> operator <|> separator <|> bracket).Yields front rest good) :
    one.Yields front rest good := by
  have noBlock : ∀ text behind, front ++ rest ≠ '/' :: '*' :: (text ++ '*' :: '/' :: behind) :=
    fun text behind shape => noComment (.inr ⟨text, behind, shape⟩)
  refine Yields.orElse_right (Refuses.bind_first (refuses_exactly fun starts =>
    noComment (.inl starts))) ?_
  refine Yields.orElse_right (refuses_blockComment noBlock) ?_
  refine Yields.orElse_right (Refuses.bind_first (refuses_wholeNumber noDigit)) ?_
  exact Yields.orElse_right (Refuses.bind_first (refuses_wholeNumber noDigit)) late

theorem not_opensComment {c : Char} {chars : List Char} (different : c ≠ '/') :
    ¬OpensComment (c :: chars) := by
  rintro (⟨behind, shape⟩ | ⟨text, rest, shape⟩)
  · exact different (List.cons.inj shape).1.symm
  · exact different (List.cons.inj shape).1

theorem yields_one_of_sign {c : Char} {others : List Char} {good : Token → Prop}
    (listed : c ∈ shortSigns ++ separators ++ brackets)
    (noComment : ¬OpensComment (c :: others ++ rest))
    (late : (operator <|> separator <|> bracket).Yields (c :: others) rest good) :
    one.Yields (c :: others) rest good := by
  have plain : ∀ c ∈ shortSigns ++ separators ++ brackets,
      c.isDigit = false ∧ c ≠ '"' ∧ isWordStart c = false :=
    List.all_iff_forall_prop.mp (by decide)
  obtain ⟨noDigit, noQuote, noWord⟩ := plain c listed
  refine yields_one_of_plain noComment (by simp [NoDigit, noDigit]) ?_
  refine Yields.orElse_right (Refuses.bind_first (Refuses.between (by simp [noQuote]))) ?_
  exact Yields.orElse_right (Refuses.bind_first (refuses_satisfy (by
    simpa [isWordStart] using noWord))) late

theorem isAlpha_iff {c : Char} : c.isAlpha = true ↔
    ('A'.val ≤ c.val ∧ c.val ≤ 'Z'.val) ∨ 'a'.val ≤ c.val ∧ c.val ≤ 'z'.val := by
  have unfolded : c.isAlpha = (decide (c.val ≥ 'A'.val ∧ c.val ≤ 'Z'.val) ||
      (decide (c.val ≥ 'a'.val) && decide (c.val ≤ 'z'.val))) := rfl
  simp only [unfolded, Bool.or_eq_true, Bool.and_eq_true, decide_eq_true_eq, ge_iff_le]

theorem plain_of_isWordStart {c : Char} (starts : isWordStart c = true) :
    c.isDigit = false ∧ c ≠ '/' ∧ c ≠ '"' := by
  refine ⟨?_, ?_, ?_⟩
  · simp only [isWordStart, Bool.or_eq_true, isAlpha_iff, beq_iff_eq] at starts
    cases isDigit : c.isDigit with
    | false => rfl
    | true =>
        simp only [Char.isDigit, Bool.and_eq_true, decide_eq_true_eq] at isDigit
        rcases starts with (upper | lower) | rfl
        · exact absurd (UInt32.le_trans upper.1 isDigit.2) (by decide)
        · exact absurd (UInt32.le_trans lower.1 isDigit.2) (by decide)
        · exact absurd isDigit.2 (by decide)
  · rintro rfl
    cases starts
  · rintro rfl
    cases starts

/-- What starts with digits is a number. -/
theorem yields_one_of_number {front digits tail : List Char} {good : Token → Prop}
    (whole : Whole digits) (starts : front ++ rest = digits ++ tail)
    (late : (float <|> int <|> string <|> word <|> operator <|> separator <|> bracket).Yields front
      rest good) : one.Yields front rest good := by
  obtain ⟨c, others, rfl, isDigit⟩ : ∃ c others, digits = c :: others ∧ c.isDigit = true := by
    rcases whole with ⟨c, others, rfl, isDigit, -⟩ | rfl
    · exact ⟨c, others, rfl, isDigit⟩
    · exact ⟨'0', [], rfl, rfl⟩
  have different : c ≠ '/' := by
    rintro rfl
    cases isDigit
  have noComment : ¬OpensComment (front ++ rest) := by
    rw [starts]
    exact not_opensComment different
  refine Yields.orElse_right (Refuses.bind_first (refuses_exactly fun opens =>
    noComment (.inl opens))) (Yields.orElse_right (refuses_blockComment ?_) late)
  exact fun text behind shape => noComment (.inr ⟨text, behind, shape⟩)

/-- What is spelled as a token is read as it. -/
theorem yields_one {token : Token} {written : List Char} (spelled : Spelled token written rest) :
    one.Yields written rest (· = token) := by
  cases spelled with
  | word starts goesOn ends =>
      rename_i first others
      have plain := plain_of_isWordStart starts
      refine yields_one_of_plain (not_opensComment plain.2.1) (by simp [NoDigit, plain.1]) ?_
      exact Yields.orElse_right (Refuses.bind_first (Refuses.between (by simp [plain.2.2])))
        (Yields.orElse_left (yields_word starts goesOn ends))
  | int whole ends noFraction =>
      refine yields_one_of_number whole rfl (Yields.orElse_right
        (refuses_float whole ends noFraction) (Yields.orElse_left ?_))
      exact (yields_wholeNumber whole ends).map fun _ same => by rw [same]
  | float whole nonempty allDigits ends =>
      exact yields_one_of_number whole (List.append_assoc _ _ _) (Yields.orElse_left
        (yields_float whole nonempty allDigits ends))
  | string each =>
      exact yields_one_of_plain (not_opensComment (by decide)) (by simp [NoDigit])
        (Yields.orElse_left (yields_string each))
  | longSign listed =>
      have starts : ∀ sign ∈ longSigns, ∃ c others, sign.1 = c :: others ∧ c ∈ shortSigns ∧
          c ≠ '/' := by
        intro sign listed
        simp only [longSigns, List.mem_cons, List.not_mem_nil, or_false] at listed
        rcases listed with rfl | rfl | rfl | rfl | rfl | rfl | rfl <;>
          exact ⟨_, _, rfl, by decide, by decide⟩
      obtain ⟨c, others, rfl, short, different⟩ := starts _ listed
      exact yields_one_of_sign (by simp [short]) (not_opensComment different)
        (Yields.orElse_left (yields_anyOf_listed listed (longSigns_distinct listed)))
  | shortSign listed short noComment =>
      refine yields_one_of_sign (by simp [listed]) noComment (Yields.orElse_left
        (anyOf_of_refused short ?_))
      exact (yields_oneOf listed).map fun _ same => by rw [same]
  | separator listed =>
      have others : ∀ c ∈ separators, c ≠ '/' ∧ c ∉ shortSigns :=
        List.all_iff_forall_prop.mp (by decide)
      obtain ⟨different, noSign⟩ := others _ listed
      refine yields_one_of_sign (by simp [listed]) (not_opensComment different)
        (Yields.orElse_right (refuses_operator (by simpa using noSign)) (Yields.orElse_left ?_))
      exact (yields_oneOf listed).map fun _ same => by rw [same]; rfl
  | bracket listed =>
      have others : ∀ c ∈ brackets, c ≠ '/' ∧ c ∉ shortSigns ∧ c ∉ separators :=
        List.all_iff_forall_prop.mp (by decide)
      obtain ⟨different, noSign, noSeparator⟩ := others _ listed
      refine yields_one_of_sign (by simp [listed]) (not_opensComment different)
        (Yields.orElse_right (refuses_operator (by simpa using noSign)) (Yields.orElse_right
          (Refuses.bind_first (refuses_oneOf (by simpa [separators] using noSeparator))) ?_))
      exact (yields_oneOf listed).map fun _ same => by rw [same]; rfl
  | lineComment plain ends => exact Yields.orElse_left (yields_lineComment plain ends)
  | blockComment plain =>
      refine Yields.orElse_right (Refuses.bind_first (refuses_exactly ?_))
        (Yields.orElse_left (yields_blockComment plain))
      simp

theorem reads_int : int.Reads fun used rest token => float.Rejects (used ++ rest) →
    Spelled token (used.map Lexeme.token) (rest.map Lexeme.token) := by
  refine (reads_wholeNumber.bind fun digits => reads_pure _).mono ?_
  rintro used rest _ ⟨front, _, digits, rfl, ⟨spelled, whole, ends⟩, rfl, rfl⟩ noFloat
  rw [List.append_nil] at noFloat ⊢
  rw [spelled]
  exact .int whole ends (noFraction_of_rejects noFloat whole _ (by simp [spelled]))

theorem reads_separator : separator.Reads fun used rest token =>
    Spelled token (used.map Lexeme.token) (rest.map Lexeme.token) := by
  refine ((reads_oneOf separators).bind fun c => reads_pure (ofSeparator c)).mono ?_
  rintro used rest _ ⟨front, _, c, rfl, ⟨spelled, listed⟩, rfl, rfl⟩
  rw [List.append_nil, spelled]
  exact .separator listed

theorem reads_bracket : bracket.Reads fun used rest token =>
    Spelled token (used.map Lexeme.token) (rest.map Lexeme.token) := by
  refine ((reads_oneOf brackets).bind fun c => reads_pure (ofBracket c)).mono ?_
  rintro used rest _ ⟨front, _, c, rfl, ⟨spelled, listed⟩, rfl, rfl⟩
  rw [List.append_nil, spelled]
  exact .bracket listed

/-- What is read as a token is spelled as it. -/
theorem reads_one : one.Reads fun used rest token =>
    Spelled token (used.map Lexeme.token) (rest.map Lexeme.token) := by
  refine (reads_lineComment.orElse (reads_blockComment.orElse (reads_float.orElse (reads_int.orElse
    (reads_string.orElse (reads_word.orElse (reads_operator.orElse (reads_separator.orElse
      reads_bracket)))))))).mono ?_
  rintro used rest token (held | ⟨noLine, held | ⟨noBlock, held | ⟨noFloat, held | ⟨-, held | ⟨-, held |
    ⟨-, held | ⟨-, held | ⟨-, held⟩⟩⟩⟩⟩⟩⟩⟩)
  · exact held
  · exact held
  · exact held
  · exact held noFloat
  · exact held
  · exact held
  · exact held (not_opensComment_of_rejects noLine noBlock)
  · exact held
  · exact held

end Token.Lexer

end QueryLoop
