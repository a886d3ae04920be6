namespace QueryLoop.Text

/-- The Unicode property `White_Space`. -/
def isBlank (c : Char) : Bool :=
  let code := c.toNat
  (9 ≤ code && code ≤ 13) || code == 0x20 || code == 0x85 || code == 0xA0 || code == 0x1680 ||
    (0x2000 ≤ code && code ≤ 0x200A) || code == 0x2028 || code == 0x2029 || code == 0x202F ||
    code == 0x205F || code == 0x3000

/-- A character that ends a line by itself; a carriage return may also be
followed by a line feed that belongs to the same line end. -/
def isLineEnd (c : Char) : Bool :=
  let code := c.toNat
  (10 ≤ code && code ≤ 13) || code == 0x85 || code == 0x2028 || code == 0x2029

end QueryLoop.Text
