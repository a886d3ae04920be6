namespace QueryLoop.Text

def byteLength : List Char → Nat
  | [] => 0
  | c :: rest => c.utf8Size + byteLength rest

@[simp] theorem byteLength_nil : byteLength [] = 0 := rfl

@[simp] theorem byteLength_cons (c : Char) (rest : List Char) :
    byteLength (c :: rest) = c.utf8Size + byteLength rest := rfl

@[simp] theorem byteLength_append (first second : List Char) :
    byteLength (first ++ second) = byteLength first + byteLength second := by
  induction first with
  | nil => simp
  | cons c rest ih =>
      simp only [List.cons_append, byteLength_cons, ih]
      omega

/-- Cuts `chars` after exactly `count` bytes, unless that is inside a character. -/
def splitBytes? : (chars : List Char) → (count : Nat) → Option (List Char × List Char)
  | chars, 0 => some ([], chars)
  | [], _ + 1 => none
  | c :: rest, count + 1 =>
      if c.utf8Size ≤ count + 1 then
        (splitBytes? rest (count + 1 - c.utf8Size)).map fun (front, back) => (c :: front, back)
      else none

def slice? (chars : List Char) (start stop : Nat) : Option (List Char) :=
  if start ≤ stop then
    match splitBytes? chars start with
    | none => none
    | some (_, tail) => (splitBytes? tail (stop - start)).map (·.1)
  else none

theorem splitBytes?_append (front back : List Char) :
    splitBytes? (front ++ back) (byteLength front) = some (front, back) := by
  induction front with
  | nil => cases back <;> simp [splitBytes?]
  | cons c rest ih =>
      have positive : 0 < c.utf8Size := c.utf8Size_pos
      obtain ⟨count, size⟩ : ∃ count, byteLength (c :: rest) = count + 1 :=
        ⟨byteLength (c :: rest) - 1, by simp only [byteLength_cons]; omega⟩
      have remaining : count + 1 - c.utf8Size = byteLength rest := by
        simp only [byteLength_cons] at size; omega
      have fits : c.utf8Size ≤ count + 1 := by
        simp only [byteLength_cons] at size; omega
      rw [size, List.cons_append, splitBytes?, if_pos fits, remaining, ih]
      rfl

end QueryLoop.Text
