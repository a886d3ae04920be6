import QueryLoop.Text.Width

namespace QueryLoop.Layout

/-! Documents that can be laid out in several ways, and the choice among them.

A group is put on one line if it fits there together with what follows it, up to
the first place where a line may end; otherwise its own line breaks are taken. -/

inductive Doc where
  | nil
  | text (content : String)
  | hardline
  /-- A line end, or `flat` on one line. -/
  | line (flat : String)
  | append (first second : Doc)
  | nest (indent : Nat) (doc : Doc)
  | group (doc : Doc)
deriving Repr, Inhabited

namespace Doc

instance : Append Doc where
  append := append

def concat : List Doc → Doc
  | [] => nil
  | doc :: docs => append doc (concat docs)

def intersperse (separator : Doc) : List Doc → Doc
  | [] => nil
  | [only] => only
  | doc :: next :: docs => append doc (append separator (intersperse separator (next :: docs)))

def enclose (opening closing : String) (doc : Doc) : Doc :=
  append (text opening) (append doc (text closing))

def isVoid : Doc → Bool
  | nil => true
  | text content => content.isEmpty
  | hardline => false
  | line _ => false
  | append first second => first.isVoid && second.isVoid
  | nest _ doc => doc.isVoid
  | group doc => doc.isVoid

end Doc

inductive Mode where
  | flat
  | broken
deriving DecidableEq, Repr

inductive Reach where
  | column (column : Nat)
  | lineEnd
  | tooFar
deriving DecidableEq, Repr

/-- Where a line that is at `column` gets to with `doc`.  A line end is not
possible in a flat layout unless `doc` can do without it. -/
def reach (width : Nat) (mode : Mode) : (doc : Doc) → (column : Nat) → Reach
  | .nil, column => .column column
  | .text content, column =>
      if content.isEmpty then .column column
      else if column + Text.width content ≤ width then .column (column + Text.width content)
      else .tooFar
  | .hardline, _ =>
      match mode with
      | .flat => .tooFar
      | .broken => .lineEnd
  | .line flat, column =>
      match mode with
      | .broken => .lineEnd
      | .flat =>
          if flat.isEmpty then .column column
          else if column + Text.width flat ≤ width then .column (column + Text.width flat)
          else .tooFar
  | .append first second, column =>
      match reach width mode first column with
      | .column column => reach width mode second column
      | other => other
  | .nest _ doc, column => reach width mode doc column
  | .group doc, column => reach width mode doc column

structure Pending where
  indent : Nat
  doc : Doc

/-- The line can take what is pending up to the first possible line end. -/
def fitsBefore (width : Nat) : (pending : List Pending) → (column : Nat) → Bool
  | [], _ => true
  | next :: pending, column =>
      match reach width .broken next.doc column with
      | .column column => fitsBefore width pending column
      | .lineEnd => true
      | .tooFar => false

def fits (width : Nat) (doc : Doc) (pending : List Pending) (column : Nat) : Bool :=
  match reach width .flat doc column with
  | .column column => fitsBefore width pending column
  | .lineEnd => true
  | .tooFar => false

inductive Piece where
  | text (content : String)
  | newline (indent : Nat)
deriving DecidableEq, Repr

def Piece.render : Piece → String
  | .text content => content
  | .newline indent => "\n" ++ String.ofList (List.replicate indent ' ')

/-- A new line is indented as what stands first on it, which is the first pending
document that prints something; `indent` is used only at the very end. -/
def lineIndent (indent : Nat) : (pending : List Pending) → Nat
  | [] => indent
  | next :: pending => if next.doc.isVoid then lineIndent indent pending else next.indent

/-- The pieces of `doc` and the column behind them, starting at `column` with
`pending` to follow. -/
def layout (width : Nat) (mode : Mode) (indent : Nat) (pending : List Pending) :
    (doc : Doc) → (column : Nat) → List Piece × Nat
  | .nil, column => ([], column)
  | .text content, column => ([.text content], column + Text.width content)
  | .hardline, _ =>
      let indent := lineIndent indent pending
      ([.newline indent], indent)
  | .line flat, column =>
      match mode with
      | .flat => ([.text flat], column + Text.width flat)
      | .broken =>
          let indent := lineIndent indent pending
          ([.newline indent], indent)
  | .append first second, column =>
      let (front, column) := layout width mode indent (⟨indent, second⟩ :: pending) first column
      let (back, column) := layout width mode indent pending second column
      (front ++ back, column)
  | .nest more doc, column => layout width mode (indent + more) pending doc column
  | .group doc, column =>
      match mode with
      | .flat => layout width .flat indent pending doc column
      | .broken =>
          let mode := if fits width doc pending column then Mode.flat else Mode.broken
          layout width mode indent pending doc column

def Doc.render (doc : Doc) (width : Nat) : String :=
  String.join ((layout width .broken 0 [] doc 0).1.map Piece.render)

end QueryLoop.Layout
