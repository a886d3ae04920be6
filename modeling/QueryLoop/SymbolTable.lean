namespace QueryLoop

structure SymbolTable where
  names : List String := []
deriving Repr, Inhabited

namespace SymbolTable

/-- The number of a name, which is stored if it is new. -/
def intern (table : SymbolTable) (name : String) : SymbolTable × Nat :=
  match table.names.idxOf? name with
  | some symbol => (table, symbol)
  | none => (⟨table.names ++ [name]⟩, table.names.length)

def text (table : SymbolTable) (symbol : Nat) : String :=
  table.names[symbol]?.getD "<invalid symbol>"

def internAll (table : SymbolTable) : List String → SymbolTable × List Nat
  | [] => (table, [])
  | name :: names =>
      let (table, symbol) := table.intern name
      let (table, symbols) := table.internAll names
      (table, symbol :: symbols)

end SymbolTable

end QueryLoop
