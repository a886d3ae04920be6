import QueryLoop.Fix
import QueryLoop.Format.Splice

namespace QueryLoop

def formatSource (source : String) (format : Format) : Except (List Problem) String :=
  match SourceTree.parse source with
  | (tree, []) => .ok (tree.render format)
  | (_, problems) => .error problems

/-- The text with every loop that can be turned into a query fixed, and how many
fixes that took.  A text with problems is refused. -/
def fixSource (source path : String) (config : Config) (format : Format) :
    Except (List Problem) (String × Nat) :=
  match Document.parse source path with
  | (document, []) =>
      let fixed := document.fixUntilDone config
      .ok ((splice source fixed.document.tree fixed.regions format).1, fixed.applied)
  | (_, problems) => .error problems

end QueryLoop
