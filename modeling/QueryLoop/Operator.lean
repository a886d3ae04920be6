namespace QueryLoop

/-- A sign the lexer reads as an operator.  `other` are signs with no meaning in
the grammar: `&`, `|`, `?` and `:` standing alone. -/
inductive Sign where
  | plus
  | minus
  | times
  | divide
  | modulo
  | equal
  | notEqual
  | less
  | lessEqual
  | greater
  | greaterEqual
  | and
  | or
  | not
  | other (char : Char)
deriving DecidableEq, Repr, Inhabited

namespace Sign

def text : Sign → String
  | plus => "+"
  | minus => "-"
  | times => "*"
  | divide => "/"
  | modulo => "%"
  | equal => "=="
  | notEqual => "!="
  | less => "<"
  | lessEqual => "<="
  | greater => ">"
  | greaterEqual => ">="
  | and => "&&"
  | or => "||"
  | not => "!"
  | other char => char.toString

end Sign

inductive UnaryOp where
  | not
  | minus
deriving DecidableEq, Repr, Inhabited

namespace UnaryOp

def sign : UnaryOp → Sign
  | not => .not
  | minus => .minus

def text (op : UnaryOp) : String :=
  op.sign.text

def ofSign? : Sign → Option UnaryOp
  | .not => some not
  | .minus => some minus
  | _ => none

theorem ofSign?_sign (op : UnaryOp) : ofSign? op.sign = some op := by
  cases op <;> rfl

end UnaryOp

inductive BinaryLevel where
  | or
  | and
  | equality
  | relational
  | additive
  | multiplicative
deriving DecidableEq, Repr, Inhabited

inductive BinaryOp where
  | times
  | divide
  | modulo
  | plus
  | minus
  | less
  | lessEqual
  | greater
  | greaterEqual
  | equal
  | notEqual
  | and
  | or
deriving DecidableEq, Repr, Inhabited

namespace BinaryOp

def sign : BinaryOp → Sign
  | times => .times
  | divide => .divide
  | modulo => .modulo
  | plus => .plus
  | minus => .minus
  | less => .less
  | lessEqual => .lessEqual
  | greater => .greater
  | greaterEqual => .greaterEqual
  | equal => .equal
  | notEqual => .notEqual
  | and => .and
  | or => .or

def text (op : BinaryOp) : String :=
  op.sign.text

def level : BinaryOp → BinaryLevel
  | times | divide | modulo => .multiplicative
  | plus | minus => .additive
  | less | lessEqual | greater | greaterEqual => .relational
  | equal | notEqual => .equality
  | and => .and
  | or => .or

def ofSign? : Sign → Option BinaryOp
  | .times => some times
  | .divide => some divide
  | .modulo => some modulo
  | .plus => some plus
  | .minus => some minus
  | .less => some less
  | .lessEqual => some lessEqual
  | .greater => some greater
  | .greaterEqual => some greaterEqual
  | .equal => some equal
  | .notEqual => some notEqual
  | .and => some and
  | .or => some or
  | .not | .other _ => none

theorem ofSign?_sign (op : BinaryOp) : ofSign? op.sign = some op := by
  cases op <;> rfl

def ofSignAt? (level : BinaryLevel) (sign : Sign) : Option BinaryOp :=
  (ofSign? sign).filter (·.level = level)

end BinaryOp

namespace BinaryLevel

def rank : BinaryLevel → Nat
  | or => 1
  | and => 2
  | equality => 3
  | relational => 4
  | additive => 5
  | multiplicative => 6

end BinaryLevel

end QueryLoop
