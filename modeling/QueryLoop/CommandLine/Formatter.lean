import QueryLoop.CommandLine.Outcome
import QueryLoop.Format.Source

namespace QueryLoop.CommandLine.Formatter

structure Options where
  file : Option String
  format : Format
deriving DecidableEq, Repr

def signature : Signature where
  options := [
    ⟨"file", some 'f', .value .path⟩,
    ⟨"width", none, .value .number⟩,
    ⟨"indent-size", none, .value .number⟩]

def Options.ofGiven (given : Given) : Options where
  file := given.text? "file"
  format :=
    { width := (given.number? "width").getD 80
      indentSize := (given.number? "indent-size").getD 4 }

def Options.parse (arguments : List String) : Except ArgumentError Options :=
  (signature.parse arguments).map Options.ofGiven

def Options.input (options : Options) : Input :=
  match options.file with
  | none => .standard
  | some path => .file path

def Options.execute (options : Options) (source : String) : Outcome :=
  match formatSource source options.format with
  | .ok text => { ending := .done, printed := text ++ "\n" }
  | .error problems =>
      .reporting problems "" (.failed "refusing to format source with syntax errors")

def command : Command Options where
  title := "looplift-fmt 0.3.0"
  options := Options.parse
  refusal? _ := none
  input := Options.input
  execute := Options.execute

end QueryLoop.CommandLine.Formatter
