namespace QueryLoop.Text

/-- Some range holds the code point of the character. -/
def inRanges (ranges : Array (Nat × Nat)) (c : Char) : Bool :=
  ranges.any fun (first, last) => decide (first ≤ c.toNat) && decide (c.toNat ≤ last)

end QueryLoop.Text
