import QueryLoop.Parsing.Parser

namespace QueryLoop.Parsing.Parser

variable {τ α : Type}

/-- Where `reader` rejects, reads `instead` from the same place and reports the
failure; where that rejects too, fails as before. -/
def recoverWith (instead : Parser τ α) (reader : Parser τ α) : Parser τ α :=
  fun cursor furthest =>
    match reader cursor furthest with
    | .accepted value after errors furthest => .accepted value after errors furthest
    | .rejected failure =>
        match instead cursor none with
        | .rejected _ => .rejected failure
        | .accepted value after errors furthest =>
            .accepted value after (errors ++ [failure.toError]) furthest

/-- Drops lexemes one at a time until `reader` accepts without an error of its
own, and then reports `failure`; fails with it at the end of the input. -/
def retryAfter (reader : Parser τ α) (failure : Failure τ) (inputStop : Nat) :
    (rest : List (Lexeme τ)) → (index : Nat) → Reply τ α
  | [], _ => .rejected failure
  | dropped :: rest, index =>
      let beforeEnd : Failure τ := ⟨index, dropped.span, some dropped.token, [.endOfInput]⟩
      match reader ⟨rest, index + 1, dropped.span.stop, inputStop⟩ (some beforeEnd) with
      | .accepted value after [] furthest => .accepted value after [failure.toError] furthest
      | _ => retryAfter reader failure inputStop rest (index + 1)

def skipAndRetry (reader : Parser τ α) : Parser τ α := fun cursor furthest =>
  match reader cursor furthest with
  | .accepted value after errors furthest => .accepted value after errors furthest
  | .rejected failure => retryAfter reader failure cursor.inputStop cursor.rest cursor.index

section
variable [DecidableEq τ]

def group (content : Parser τ Unit) (pair : τ × τ) : (pairs : List (τ × τ)) → Parser τ Unit
  | [] => between (token pair.1) (token pair.2) content
  | next :: pairs =>
      between (token pair.1) (token pair.2) content <|> group content next pairs

def balanced (pair : τ × τ) (pairs : List (τ × τ)) : Parser τ Unit :=
  let delimiters := (pair :: pairs).flatMap fun (opening, closing) => [opening, closing]
  recursive fun content => do
    let _ ← many (group content pair pairs <|> do
      let _ ← andAlso anyToken (noneOf delimiters)
      return ())
    return ()

/-- Skips a group from `opening` to the matching `closing`, inside which the
delimiters of `others` are balanced as well, and gives its span. -/
def skipGroup (opening closing : τ) (others : List (τ × τ)) : Parser τ Span := do
  let (_, span) ← spanned
    (between (token opening) (token closing) (balanced (opening, closing) others))
  return span

end

end QueryLoop.Parsing.Parser
