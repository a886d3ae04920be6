import QueryLoop.CommandLine.Outcome
import QueryLoop.Format.Source
import QueryLoop.Tree.Sexpr

namespace QueryLoop.CommandLine.LoopTool

inductive Mode where
  | analyze
  | emitTree
  | fix (write : Bool)
deriving DecidableEq, Repr

structure Options where
  mode : Mode
  file : Option String
  /-- Put the fixed source back into the file; matters only when fixing. -/
  write : Bool
  config : Config
  format : Format
deriving DecidableEq, Repr

def signature : Signature where
  options := [
    ⟨"fix", none, .flag⟩,
    ⟨"emit-ast", none, .flag⟩,
    ⟨"write", some 'w', .flag⟩,
    ⟨"width", none, .value .number⟩,
    ⟨"indent-size", none, .value .number⟩,
    ⟨"no-filter", none, .flag⟩,
    ⟨"no-map", none, .flag⟩,
    ⟨"lambda-parameter", none, .value .text⟩]
  operand := some ⟨"file", none, .value .path⟩
  exclusive := [("fix", "emit-ast")]

def Options.ofGiven (given : Given) : Options where
  mode :=
    if given.has "fix" then .fix (given.has "write")
    else if given.has "emit-ast" then .emitTree
    else .analyze
  file := given.text? "file"
  write := given.has "write"
  config :=
    { options :=
        { reportFilters := !given.has "no-filter"
          reportMaps := !given.has "no-map"
          lambdaParameter := (given.text? "lambda-parameter").getD "x" } }
  format :=
    { width := (given.number? "width").getD 80
      indentSize := (given.number? "indent-size").getD 4 }

def Options.parse (arguments : List String) : Except ArgumentError Options :=
  (signature.parse arguments).map Options.ofGiven

def Options.input (options : Options) : Input :=
  match options.file with
  | none => .standard
  | some path => .file path

def Options.refusal? (options : Options) : Option String :=
  if options.write && options.file.isNone then some "--write needs a file argument" else none

def failure (input : Input) : Ending :=
  .failed ("Failed to process " ++ input.name)

def emitTree (source : String) (input : Input) : Outcome :=
  let (tree, problems) := SourceTree.parse source
  let printed := String.join (tree.items.map fun item => item.sexpr ++ "\n")
  .reporting problems printed (if problems.isEmpty then .done else failure input)

def fix (options : Options) (write : Bool) (source : String) : Outcome :=
  match fixSource source options.input.name options.config options.format with
  | .error problems => .reporting problems "" (failure options.input)
  | .ok (text, _) =>
      match write, options.file with
      | true, some path => { ending := .done, written := some (path, text) }
      | _, _ => { ending := .done, printed := text }

/-- Reports go to the error stream, so an analysis prints nothing. -/
def analyze (source : String) : Outcome :=
  .reporting (SourceTree.parse source).2 "" .done

def Options.execute (options : Options) (source : String) : Outcome :=
  match options.mode with
  | .analyze => analyze source
  | .emitTree => emitTree source options.input
  | .fix write => fix options write source

def command : Command Options where
  title := "looplift-cli 0.3.0"
  options := Options.parse
  refusal? := Options.refusal?
  input := Options.input
  execute := Options.execute

end QueryLoop.CommandLine.LoopTool
