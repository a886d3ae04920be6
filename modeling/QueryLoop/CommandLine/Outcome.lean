import QueryLoop.CommandLine.Arguments
import QueryLoop.Problem

namespace QueryLoop.CommandLine

inductive ReadError where
  | notFound
  | notDirectory
  | isDirectory
  | nameTooLong
  | notText
deriving DecidableEq, Repr

def ReadError.message : ReadError → String
  | notFound => "No such file or directory (os error 2)"
  | notDirectory => "Not a directory (os error 20)"
  | isDirectory => "Is a directory (os error 21)"
  | nameTooLong => "File name too long (os error 36)"
  | notText => "stream did not contain valid UTF-8"

def decode (bytes : ByteArray) : Except ReadError String :=
  match String.fromUTF8? bytes with
  | some text => .ok text
  | none => .error .notText

inductive Input where
  | standard
  | file (path : String)
deriving DecidableEq, Repr

def Input.name : Input → String
  | standard => "<stdin>"
  | file path => path

inductive Ending where
  | done
  | failed (message : String)
  | badArguments (error : ArgumentError)
  /-- A report could not be drawn. -/
  | crashed
deriving DecidableEq, Repr

/-- How a run ended, what it printed, and what it wrote to which file. -/
structure Outcome where
  ending : Ending
  printed : String := ""
  written : Option (String × String) := none
deriving DecidableEq, Repr

namespace Outcome

def exitCode (outcome : Outcome) : Nat :=
  match outcome.ending with
  | .done => 0
  | .failed _ => 1
  | .badArguments .helpWanted => 0
  | .badArguments .versionWanted => 0
  | .badArguments _ => 2
  | .crashed => 101

def message? (outcome : Outcome) : Option String :=
  match outcome.ending with
  | .failed message => some message
  | _ => none

/-- Reports problems after printing something, and then ends as given.  A problem
whose place ends before it starts cannot be drawn. -/
def reporting (problems : List Problem) (printed : String) (ending : Ending) : Outcome :=
  if problems.all Problem.isDrawable then { ending, printed } else { ending := .crashed, printed }

end Outcome

def Outcome.ofArguments (title : String) : ArgumentError → Outcome
  | .versionWanted => { ending := .badArguments .versionWanted, printed := title ++ "\n" }
  | error => { ending := .badArguments error }

/-- A command: from the arguments to what is to be done, where the source text is
read, and what comes of it. -/
structure Command (α : Type) where
  title : String
  options : List String → Except ArgumentError α
  /-- Why the options cannot be carried out, whatever the source text is. -/
  refusal? : α → Option String
  input : α → Input
  execute : α → String → Outcome

namespace Command

def prepare (command : Command α) (arguments : List String) : Except Outcome α :=
  match command.options arguments with
  | .error error => .error (.ofArguments command.title error)
  | .ok options =>
      match command.refusal? options with
      | some message => .error { ending := .failed message }
      | none => .ok options

def finish (command : Command α) (options : α) (source : Except ReadError String) : Outcome :=
  match source with
  | .error error => { ending := .failed error.message }
  | .ok source => command.execute options source

def run (command : Command α) (arguments : List String)
    (read : Input → Except ReadError String) : Outcome :=
  match command.prepare arguments with
  | .error outcome => outcome
  | .ok options => command.finish options (read (command.input options))

end Command

end QueryLoop.CommandLine
