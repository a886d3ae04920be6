import QueryLoop.Parsing.SyntaxError

namespace QueryLoop.Parsing

/-! Readers of lexemes with ordered choice.

A `Parser` starts at a cursor with the furthest failure seen so far and either
accepts (a value, the cursor behind it, the errors it reports) or rejects.
Either way the furthest failure is handed on, so going back to an earlier cursor
forgets reported errors but not failures.  The same readers work on characters
and on tokens. -/

structure Lexeme (τ : Type) where
  token : τ
  span : Span
deriving DecidableEq, Repr

/-- A place between lexemes: what is left, how many lexemes came before, where
the last of them ended, and where the whole input ends.  Before the first lexeme
`lastStop` is the end of the input. -/
structure Cursor (τ : Type) where
  rest : List (Lexeme τ)
  index : Nat
  lastStop : Nat
  inputStop : Nat
deriving DecidableEq, Repr

namespace Cursor

def start (lexemes : List (Lexeme τ)) (inputStop : Nat) : Cursor τ :=
  ⟨lexemes, 0, inputStop, inputStop⟩

def next? (cursor : Cursor τ) : Option (Lexeme τ × Cursor τ) :=
  match cursor.rest with
  | [] => none
  | lexeme :: rest =>
      some (lexeme, ⟨rest, cursor.index + 1, lexeme.span.stop, cursor.inputStop⟩)

def spanTo (before after : Cursor τ) : Span :=
  match before.rest with
  | [] => ⟨before.inputStop, before.inputStop⟩
  | lexeme :: _ => ⟨lexeme.span.start, after.lastStop⟩

def refusal (cursor : Cursor τ) (expected : List (Expected τ)) : Failure τ :=
  match cursor.rest with
  | [] => ⟨cursor.index, ⟨cursor.inputStop, cursor.inputStop⟩, none, expected⟩
  | lexeme :: _ => ⟨cursor.index, lexeme.span, some lexeme.token, expected⟩

end Cursor

inductive Reply (τ α : Type) where
  | accepted (value : α) (after : Cursor τ) (errors : List (SyntaxError τ))
      (furthest : Option (Failure τ))
  | rejected (furthest : Failure τ)

def Parser (τ α : Type) : Type :=
  Cursor τ → Option (Failure τ) → Reply τ α

namespace Parser

variable {τ α β : Type}

protected def pure (value : α) : Parser τ α := fun cursor furthest =>
  .accepted value cursor [] furthest

protected def bind (first : Parser τ α) (second : α → Parser τ β) : Parser τ β := fun cursor furthest =>
  match first cursor furthest with
  | .rejected furthest => .rejected furthest
  | .accepted value middle errors furthest =>
      match second value middle furthest with
      | .rejected furthest => .rejected furthest
      | .accepted value after more furthest => .accepted value after (errors ++ more) furthest

instance : Monad (Parser τ) where
  pure := Parser.pure
  bind := Parser.bind

/-- Tries `second` from the same place when `first` rejects. -/
protected def orElse (first : Parser τ α) (second : Unit → Parser τ α) : Parser τ α :=
  fun cursor furthest =>
    match first cursor furthest with
    | .rejected furthest => second () cursor (some furthest)
    | accepted => accepted

instance : OrElse (Parser τ α) where
  orElse := Parser.orElse

protected def optional (reader : Parser τ α) : Parser τ (Option α) := fun cursor furthest =>
  match reader cursor furthest with
  | .rejected furthest => .accepted none cursor [] (some furthest)
  | .accepted value after errors furthest => .accepted (some value) after errors furthest

def spanned (reader : Parser τ α) : Parser τ (α × Span) := fun cursor furthest =>
  match reader cursor furthest with
  | .rejected furthest => .rejected furthest
  | .accepted value after errors furthest =>
      .accepted (value, cursor.spanTo after) after errors furthest

def report (span : Span) (cause : Cause τ) : Parser τ Unit := fun cursor furthest =>
  .accepted () cursor [⟨span, cause⟩] furthest

def ahead (reader : Parser τ α) : Parser τ Unit := fun cursor furthest =>
  match reader cursor furthest with
  | .rejected furthest => .rejected furthest
  | .accepted _ _ _ furthest => .accepted () cursor [] furthest

/-- As many readings of `reader` as `budget` has elements, or one more. -/
def manyWithin (reader : Parser τ α) :
    (budget : List (Lexeme τ)) → Cursor τ → Option (Failure τ) → Reply τ (List α)
  | [], cursor, furthest =>
      match reader cursor furthest with
      | .rejected furthest => .accepted [] cursor [] (some furthest)
      | .accepted value after errors furthest => .accepted [value] after errors furthest
  | _ :: budget, cursor, furthest =>
      match reader cursor furthest with
      | .rejected furthest => .accepted [] cursor [] (some furthest)
      | .accepted value middle errors furthest =>
          match manyWithin reader budget middle furthest with
          | .rejected furthest => .rejected furthest
          | .accepted values after more furthest =>
              .accepted (value :: values) after (errors ++ more) furthest

/-- Readings of `reader` until it rejects.  A reader that consumes a lexeme each
time can be run at most once for every lexeme that is left. -/
def many (reader : Parser τ α) : Parser τ (List α) := fun cursor furthest =>
  manyWithin reader cursor.rest cursor furthest

def many1 (reader : Parser τ α) : Parser τ (List α) := do
  let first ← reader
  let others ← many reader
  return first :: others

def separated1 (reader : Parser τ α) (separator : Parser τ Unit) : Parser τ (List α) := do
  let first ← reader
  let others ← many (do separator; reader)
  return first :: others

def separated (reader : Parser τ α) (separator : Parser τ Unit) : Parser τ (List α) :=
  separated1 reader separator <|> Parser.pure []

def between (opening closing : Parser τ Unit) (reader : Parser τ α) : Parser τ α := do
  opening
  let value ← reader
  closing
  return value

/-- The reader that a grammar rule defines in terms of itself, unrolled as often
as `budget` has elements, and once more. -/
def unrolled (rule : Parser τ α → Parser τ α) :
    (budget : List (Lexeme τ)) → Cursor τ → Option (Failure τ) → Reply τ α
  | [], cursor, furthest =>
      rule (fun cursor _ => .rejected (cursor.refusal [])) cursor furthest
  | _ :: budget, cursor, furthest => rule (unrolled rule budget) cursor furthest

/-- The reader that a grammar rule defines in terms of itself.  A rule reads a
lexeme before it refers to itself, so unrolling it once for every lexeme that is
left, and once for the end, is enough. -/
def recursive (rule : Parser τ α → Parser τ α) : Parser τ α := fun cursor furthest =>
  unrolled rule cursor.rest cursor furthest

section
variable [DecidableEq τ]

def select (accept : τ → Option α) (expected : List (Expected τ)) : Parser τ α :=
  fun cursor furthest =>
    match cursor.next? with
    | none => .rejected (Failure.note furthest (cursor.refusal expected))
    | some (lexeme, after) =>
        match accept lexeme.token with
        | none => .rejected (Failure.note furthest (cursor.refusal expected))
        | some value => .accepted value after [] furthest

def token (wanted : τ) : Parser τ Unit :=
  select (fun found => if found = wanted then some () else none) [.token wanted]

def noneOf (refused : List τ) : Parser τ τ :=
  select (fun found => if found ∈ refused then none else some found) [.somethingElse]

def oneOf (wanted : List τ) : Parser τ τ :=
  select (fun found => if found ∈ wanted then some found else none) (wanted.map .token)

def anyToken : Parser τ τ :=
  select some [.anything]

def endOfInput : Parser τ Unit := fun cursor furthest =>
  match cursor.rest with
  | [] => .accepted () cursor [] furthest
  | _ :: _ => .rejected (Failure.note furthest (cursor.refusal [.endOfInput]))

def satisfy (label : String) (holds : τ → Bool) : Parser τ τ := fun cursor furthest =>
  match cursor.next? with
  | none => .rejected (Failure.note furthest (cursor.refusal [.anything]))
  | some (lexeme, after) =>
      if holds lexeme.token then .accepted lexeme.token after [] furthest
      else .rejected (Failure.merge furthest (cursor.refusal [.label label]))

/-- `reader`, whose failures at its own start are told by `label`. -/
def labelled (label : String) (reader : Parser τ α) : Parser τ α := fun cursor furthest =>
  match reader cursor none with
  | .rejected own => .rejected (Failure.merge furthest (own.relabel cursor.index label))
  | .accepted value after errors own =>
      let furthest := match own with
        | none => furthest
        | some own => some (Failure.merge furthest (own.relabel cursor.index label))
      .accepted value after errors furthest

/-- `reader` must reject here; nothing is consumed.  Its own failures do not
count, and what it accepted is told at the place behind the first lexeme. -/
def refuse (reader : Parser τ α) : Parser τ Unit := fun cursor furthest =>
  match reader cursor none with
  | .rejected _ => .accepted () cursor [] furthest
  | .accepted _ after _ _ =>
      let failure := cursor.refusal [.somethingElse]
      let index := match cursor.next? with
        | none => cursor.index
        | some (_, behind) => behind.index
      .rejected (Failure.note furthest { failure with index, span := cursor.spanTo after })

def andAlso (reader : Parser τ α) (also : Parser τ β) : Parser τ α := fun cursor furthest =>
  match reader cursor furthest with
  | .rejected furthest => .rejected furthest
  | .accepted value after errors furthest =>
      match also cursor furthest with
      | .rejected furthest => .rejected furthest
      | .accepted _ _ _ furthest => .accepted value after errors furthest

end

/-- Reads a whole input.  Errors come back with the value; when the reader stops
before the end there is no value, and the furthest failure is the last error. -/
def run [DecidableEq τ] (reader : Parser τ α) (lexemes : List (Lexeme τ)) (inputStop : Nat) :
    Option α × List (SyntaxError τ) :=
  match reader (Cursor.start lexemes inputStop) none with
  | .rejected failure => (none, [failure.toError])
  | .accepted value after errors furthest =>
      match endOfInput after furthest with
      | .rejected failure => (none, errors ++ [failure.toError])
      | .accepted .. => (some value, errors)

end Parser

end QueryLoop.Parsing
