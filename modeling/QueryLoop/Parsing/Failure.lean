import QueryLoop.Span

namespace QueryLoop.Parsing

/-! What a reader of lexemes wanted and did not find.

A reader tries alternatives, so many failures happen on the way to an answer.
Only the one furthest into the input is worth telling; failures at the same
place are told together. -/

inductive Expected (τ : Type) where
  | token (token : τ)
  | label (name : String)
  | somethingElse
  | anything
  | endOfInput
deriving DecidableEq, Repr

/-- A failure before the lexeme with number `index`.  `found` is that lexeme's
token, absent at the end of the input. -/
structure Failure (τ : Type) where
  index : Nat
  span : Span
  found : Option τ
  expected : List (Expected τ)
deriving Repr

def appendNew [DecidableEq α] (known : List α) : (more : List α) → List α
  | [] => known
  | item :: more => appendNew (if item ∈ known then known else known ++ [item]) more

namespace Failure

variable {τ : Type} [DecidableEq τ]

/-- Remembers a new failure of a single reader: the later one wins, and at the
same place the new expectations are put behind the old ones. -/
def note (old : Option (Failure τ)) (new : Failure τ) : Failure τ :=
  match old with
  | none => new
  | some old =>
      if old.index < new.index then new
      else if new.index < old.index then old
      else { old with
        found := old.found.or new.found
        expected := appendNew old.expected new.expected }

/-- Remembers a finished failure: as `note`, but the longer of two lists of
expectations goes first, the old one if they are equally long. -/
def merge (old : Option (Failure τ)) (new : Failure τ) : Failure τ :=
  match old with
  | none => new
  | some old =>
      if old.index < new.index then new
      else if new.index < old.index then old
      else if old.expected.length < new.expected.length then
        { old with expected := appendNew new.expected old.expected }
      else { old with expected := appendNew old.expected new.expected }

def relabel (failure : Failure τ) (index : Nat) (label : String) : Failure τ :=
  if failure.index = index then { failure with expected := [.label label] } else failure

end Failure

end QueryLoop.Parsing
