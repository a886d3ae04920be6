import QueryLoop.Document
import QueryLoop.Format.Tree
import QueryLoop.Tree.Contents

namespace QueryLoop

/-- The regions that lie in no other region, each once, in the order given. -/
def outermostRegions (regions : List Span) : List Span :=
  (regions.filter fun region =>
    !regions.any fun other => other != region && other.contains region).eraseDups

/-- Later starts first; regions with the same start keep their order. -/
def fromTheBack (regions : List Span) : List Span :=
  regions.mergeSort fun first second => decide (second.start ≤ first.start)

def leadingBlanks (line : List Char) : List Char :=
  line.takeWhile Text.isBlank

def lastLine (chars : List Char) : List Char :=
  (chars.reverse.takeWhile (· != '\n')).reverse

/-- The lines of a text, without the line ends; a line feed at the very end starts
no new line, and a carriage return before a line feed belongs to the line end. -/
def textLines (chars : List Char) : List (List Char) :=
  let lines := chars.splitOn '\n'
  let dropReturn (line : List Char) : List Char :=
    if line.getLast? = some '\r' then line.dropLast else line
  match lines.reverse with
  | [] => []
  | last :: front =>
      (front.reverse.map dropReturn) ++ if last.isEmpty then [] else [last]

def indentLines (indent : List Char) : List (List Char) → List Char
  | [] => []
  | [only] => only
  | first :: lines =>
      first ++ lines.flatMap fun line => '\n' :: if line.isEmpty then [] else indent ++ line

def Stmt.renderIndented (stmt : Stmt) (format : Format) (indent : List Char) : List Char :=
  let narrowed := { format with width := max (format.width - Text.byteLength indent) 1 }
  indentLines indent (textLines (stmt.render narrowed).toList)

structure Unmatched where
  region : Span
deriving DecidableEq, Repr

def Unmatched.message (unmatched : Unmatched) : String :=
  "no rewritten statement at " ++ toString unmatched.region.start ++ ".." ++
    toString unmatched.region.stop ++ ", leaving the source as is"

def spliceRegions (tree : SourceTree) (format : Format) :
    (regions : List Span) → (text : List Char) → List Char × List Unmatched
  | [], text => (text, [])
  | region :: regions, text =>
      match Node.stmtAt? (tree.nodesAround region) region with
      | none =>
          let (text, unmatched) := spliceRegions tree format regions text
          (text, ⟨region⟩ :: unmatched)
      | some stmt =>
          match Text.splitBytes? text region.start with
          | none => spliceRegions tree format regions text
          | some (front, tail) =>
              match Text.splitBytes? tail (region.stop - region.start) with
              | none => spliceRegions tree format regions text
              | some (_, back) =>
                  let indent := leadingBlanks (lastLine front)
                  spliceRegions tree format regions
                    (front ++ stmt.renderIndented format indent ++ back)

/-- The source with every outermost region replaced by the text of the statement
that now has this span. -/
def splice (source : String) (tree : SourceTree) (regions : List Span) (format : Format) :
    String × List Unmatched :=
  let (text, unmatched) :=
    spliceRegions tree format (fromTheBack (outermostRegions regions)) source.toList
  (String.ofList text, unmatched)

end QueryLoop
