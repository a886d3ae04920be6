import QueryLoop.Layout.Doc
import QueryLoop.Text.Blank

namespace QueryLoop.Layout

/-- A line end, and blanks in front of the next line. -/
def NewLine (chars : List Char) : Prop :=
  ∃ blanks, (∀ c ∈ blanks, Text.isBlank c = true) ∧ chars = '\n' :: blanks

namespace Doc

/-- The characters are one of the layouts of the document. -/
def Lays : Doc → List Char → Prop
  | nil, chars => chars = []
  | text content, chars => chars = content.toList
  | hardline, chars => NewLine chars
  | line flat, chars => chars = flat.toList ∨ NewLine chars
  | append first second, chars =>
      ∃ front back, chars = front ++ back ∧ first.Lays front ∧ second.Lays back
  | nest _ doc, chars => doc.Lays chars
  | group doc, chars => doc.Lays chars

end Doc

/-- The characters of laid out pieces. -/
def Piece.chars (pieces : List Piece) : List Char :=
  pieces.flatMap fun piece => piece.render.toList

theorem newLine_render (indent : Nat) : NewLine (Piece.chars [.newline indent]) := by
  refine ⟨List.replicate indent ' ', fun c listed => ?_, ?_⟩
  · rw [List.eq_of_mem_replicate listed]
    decide
  · simp [Piece.chars, Piece.render]

theorem lays_layout (width : Nat) (mode : Mode) (indent : Nat) (pending : List Pending) (doc : Doc)
    (column : Nat) : doc.Lays (Piece.chars (layout width mode indent pending doc column).1) := by
  induction doc generalizing mode indent pending column with
  | nil => rfl
  | text content => simp [layout, Piece.chars, Piece.render, Doc.Lays]
  | hardline => exact newLine_render _
  | line flat =>
      cases mode with
      | flat => exact .inl (by simp [layout, Piece.chars, Piece.render])
      | broken => exact .inr (newLine_render _)
  | append first second ih ih' =>
      have front := ih mode indent (⟨indent, second⟩ :: pending) column
      exact ⟨_, _, List.flatMap_append, front, ih' mode indent pending _⟩
  | nest more doc ih => exact ih mode (indent + more) pending column
  | group doc ih =>
      cases mode with
      | flat => exact ih .flat indent pending column
      | broken => exact ih _ indent pending column

theorem lays_render (doc : Doc) (width : Nat) : doc.Lays (doc.render width).toList := by
  rw [Doc.render, String.toList_join, List.flatMap_map]
  exact lays_layout width .broken 0 [] doc 0

end QueryLoop.Layout
