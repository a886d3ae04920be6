namespace QueryLoop.CommandLine

/-! Arguments of a command line: long and short options, flags, values and one
operand.  Arguments are read from left to right and the first fault is told; a
value that stands in an argument of its own is checked only once the next
argument is known. -/

inductive ArgumentError where
  /-- No option of this name, or one operand too many. -/
  | unknown
  /-- Given twice, or two arguments that exclude each other. -/
  | conflict
  | notNumber
  /-- An option that needs a value has none, or a file has an empty name. -/
  | missingValue
  | unneededValue
  | helpWanted
  | versionWanted
deriving DecidableEq, Repr

inductive ValueKind where
  | number
  | text
  | path
deriving DecidableEq, Repr

inductive ParameterKind where
  | flag
  | value (kind : ValueKind)
  | help
  | version
deriving DecidableEq, Repr

structure Parameter where
  name : String
  short : Option Char := none
  kind : ParameterKind
deriving DecidableEq, Repr

/-- Everything that can be given on a command line.  Of two flags that exclude
each other only one may be given. -/
structure Signature where
  options : List Parameter
  operand : Option Parameter := none
  exclusive : List (String × String) := []
deriving DecidableEq, Repr

def Signature.allOptions (signature : Signature) : List Parameter :=
  signature.options ++ [⟨"help", some 'h', .help⟩, ⟨"version", some 'V', .version⟩]

def maxNumber : Nat :=
  0xFFFFFFFFFFFFFFFF

def parseNumber? (text : String) : Option Nat :=
  let digits := match text.toList with
    | '+' :: digits => digits
    | digits => digits
  if digits.isEmpty || !digits.all Char.isDigit then none
  else
    let number := digits.foldl (fun number c => number * 10 + (c.toNat - '0'.toNat)) 0
    if number ≤ maxNumber then some number else none

/-- What was given, by name; a flag has the empty text. -/
abbrev Given := List (String × String)

namespace Given

def has (given : Given) (name : String) : Bool :=
  given.any (·.1 = name)

def text? (given : Given) (name : String) : Option String :=
  given.lookup name

def number? (given : Given) (name : String) : Option Nat :=
  (given.text? name).bind parseNumber?

end Given

def ValueKind.check (kind : ValueKind) (value : String) : Except ArgumentError Unit :=
  match kind with
  | .number => if (parseNumber? value).isSome then .ok () else .error .notNumber
  | .text => .ok ()
  | .path => if value.isEmpty then .error .missingValue else .ok ()

/-- A parameter whose value, if it is there already, is not stored yet. -/
structure Waiting where
  parameter : Parameter
  value : Option String
deriving DecidableEq, Repr

structure Progress where
  given : Given := []
  waiting : Option Waiting := none
  operandGiven : Bool := false
deriving DecidableEq, Repr

namespace Progress

def store (progress : Progress) (name value : String) : Except ArgumentError Progress :=
  if progress.given.has name then .error .conflict
  else .ok { progress with given := progress.given ++ [(name, value)] }

def take (progress : Progress) (parameter : Parameter) (value : Option String) :
    Except ArgumentError Progress :=
  match parameter.kind, value with
  | .help, _ => .error .helpWanted
  | .version, _ => .error .versionWanted
  | .flag, _ => progress.store parameter.name ""
  | .value _, none => .error .missingValue
  | .value kind, some value => do
      let progress ← progress.store parameter.name value
      kind.check value
      return progress

def settle (progress : Progress) : Except ArgumentError Progress :=
  match progress.waiting with
  | none => .ok progress
  | some waiting => { progress with waiting := none }.take waiting.parameter waiting.value

def option (progress : Progress) (parameter : Parameter) (attached : Option String) :
    Except ArgumentError Progress := do
  let progress ← progress.settle
  match parameter.kind, attached with
  | .value _, none => return { progress with waiting := some ⟨parameter, none⟩ }
  | _, attached => progress.take parameter attached

def long (progress : Progress) (signature : Signature) (argument : List Char) :
    Except ArgumentError Progress :=
  let name := String.ofList (argument.takeWhile (· != '='))
  let attached := match argument.dropWhile (· != '=') with
    | [] => none
    | _ :: value => some (String.ofList value)
  match signature.allOptions.find? (·.name = name) with
  | none => .error .unknown
  | some parameter =>
      match parameter.kind, attached with
      | .value _, attached => progress.option parameter attached
      | _, some _ => .error .unneededValue
      | _, none => progress.option parameter none

/-- Short options in one argument, without the dash.  The first that needs a
value takes the rest of the argument, without an equals sign in front. -/
def shorts (progress : Progress) (signature : Signature) :
    List Char → Except ArgumentError Progress
  | [] => .ok progress
  | c :: rest =>
      match signature.allOptions.find? (·.short = some c) with
      | none => .error .unknown
      | some parameter =>
          match parameter.kind, rest with
          | .value _, [] => progress.option parameter none
          | .value _, '=' :: value => progress.option parameter (some (String.ofList value))
          | .value _, value => progress.option parameter (some (String.ofList value))
          | _, rest => do
              let progress ← progress.option parameter none
              progress.shorts signature rest

def operand (progress : Progress) (signature : Signature) (argument : String) :
    Except ArgumentError Progress :=
  match signature.operand with
  | some parameter =>
      if progress.operandGiven then .error .unknown
      else do
        let progress ← progress.settle
        return { progress with waiting := some ⟨parameter, some argument⟩, operandGiven := true }
  | none => .error .unknown

def operands (progress : Progress) (signature : Signature) :
    List String → Except ArgumentError Progress
  | [] => .ok progress
  | argument :: arguments => do
      let progress ← progress.operand signature argument
      progress.operands signature arguments

def plain (progress : Progress) (signature : Signature) (argument : String) :
    Except ArgumentError Progress :=
  match progress.waiting with
  | some ⟨parameter, none⟩ =>
      .ok { progress with waiting := some ⟨parameter, some argument⟩ }
  | _ => progress.operand signature argument

def arguments (progress : Progress) (signature : Signature) :
    List String → Except ArgumentError Progress
  | [] => .ok progress
  | argument :: rest =>
      match argument.toList with
      | ['-', '-'] => progress.operands signature rest
      | '-' :: '-' :: name => do
          let progress ← progress.long signature name
          progress.arguments signature rest
      | '-' :: c :: others => do
          let progress ← progress.shorts signature (c :: others)
          progress.arguments signature rest
      | _ => do
          let progress ← progress.plain signature argument
          progress.arguments signature rest

end Progress

def Signature.parse (signature : Signature) (arguments : List String) :
    Except ArgumentError Given := do
  let progress ← Progress.arguments {} signature arguments
  let progress ← progress.settle
  if signature.exclusive.any fun (first, second) =>
      progress.given.has first && progress.given.has second then
    .error .conflict
  else return progress.given

end QueryLoop.CommandLine
