import QueryLoop.Proofs.Printing.Expressions

namespace QueryLoop

open Token.Lexer

inductive Sexpr where
  | atom (text : String)
  | list (items : List Sexpr)

namespace Sexpr

mutual

def text : Sexpr → String
  | atom text => text
  | list items => "(" ++ joined items ++ ")"

/-- The items with a blank between two of them. -/
def joined : List Sexpr → String
  | [] => ""
  | [only] => only.text
  | first :: second :: others => first.text ++ " " ++ joined (second :: others)

end

/-- The items, each behind a blank. -/
def behind (items : List Sexpr) : List Char :=
  items.flatMap fun item => ' ' :: item.text.toList

theorem toList_joined (first : Sexpr) (others : List Sexpr) :
    (joined (first :: others)).toList = first.text.toList ++ behind others := by
  induction others generalizing first with
  | nil => simp [joined, behind]
  | cons second others ih => simp [joined, behind, ih]

theorem toList_list (items : List Sexpr) :
    (list items).text.toList = '(' :: ((joined items).toList ++ [')']) := by
  simp [text]

/-- What may follow an item. -/
def Ends (rest : List Char) : Prop :=
  ∀ c ∈ rest.head?, c = ' ' ∨ c = ')'

/-- A character that is always part of a word. -/
def isPlain (c : Char) : Bool :=
  c ∉ [' ', '(', ')', '"', ',']

/-- Plain characters, and blanks behind commas that are not the last. -/
inductive Word : List Char → Prop
  | single {c : Char} (plain : isPlain c = true) : Word [c]
  | cons {c : Char} {chars : List Char} (plain : isPlain c = true) (word : Word chars) :
      Word (c :: chars)
  | comma {chars : List Char} (word : Word chars) : Word (',' :: ' ' :: chars)

/-- A word, or anything between quotes. -/
inductive Atomic : List Char → Prop
  | word {chars : List Char} (word : Word chars) : Atomic chars
  | quoted {parts : List (List Char)} (each : ∀ part ∈ parts, StringPart part) :
      Atomic ('"' :: (parts.flatten ++ ['"']))

variable {front front' rest rest' : List Char}

theorem not_isPlain_of_ends {c : Char} (ends : Ends (c :: rest)) : isPlain c = false ∧ c ≠ ',' := by
  rcases ends c rfl with rfl | rfl <;> decide

namespace Word

theorem of_plain (nonempty : front ≠ []) (plain : ∀ c ∈ front, isPlain c = true) : Word front := by
  induction front with
  | nil => exact absurd rfl nonempty
  | cons c chars ih =>
      obtain ⟨own, others⟩ := List.forall_mem_cons.mp plain
      cases chars with
      | nil => exact .single own
      | cons d chars => exact .cons own (ih (List.cons_ne_nil _ _) others)

theorem append (word : Word front) (word' : Word front') : Word (front ++ front') := by
  induction word with
  | single plain => exact .cons plain word'
  | cons plain _ ih => exact .cons plain ih
  | comma _ ih => exact .comma ih

theorem starts (word : Word front) :
    ∃ c chars, front = c :: chars ∧ (isPlain c = true ∨ c = ',') := by
  cases word with
  | single plain => exact ⟨_, _, rfl, .inl plain⟩
  | cons plain _ => exact ⟨_, _, rfl, .inl plain⟩
  | comma _ => exact ⟨_, _, rfl, .inr rfl⟩

/-- A word goes on where an item may not end. -/
theorem not_ends (word : Word front) : ¬Ends (front ++ rest) := by
  obtain ⟨c, chars, rfl, starts⟩ := word.starts
  intro ends
  obtain ⟨noPlain, noComma⟩ := not_isPlain_of_ends ends
  rcases starts with plain | rfl
  · simp [plain] at noPlain
  · exact noComma rfl

theorem unique (word : Word front) (word' : Word front') (ends : Ends rest) (ends' : Ends rest')
    (same : front ++ rest = front' ++ rest') : front = front' ∧ rest = rest' := by
  have comma : isPlain ',' = false := rfl
  induction word generalizing front' with
  | single plain =>
      cases word' with
      | single _ => simpa using same
      | cons _ following =>
          obtain ⟨-, rfl⟩ := List.cons.inj same
          exact absurd ends following.not_ends
      | comma _ =>
          obtain ⟨rfl, -⟩ := List.cons.inj same
          simp [comma] at plain
  | cons plain word ih =>
      cases word' with
      | single _ =>
          obtain ⟨-, rfl⟩ := List.cons.inj same
          exact absurd ends' word.not_ends
      | cons _ following =>
          obtain ⟨rfl, others⟩ := List.cons.inj same
          obtain ⟨rfl, behind⟩ := ih following others
          exact ⟨rfl, behind⟩
      | comma _ =>
          obtain ⟨rfl, -⟩ := List.cons.inj same
          simp [comma] at plain
  | comma word ih =>
      cases word' with
      | single plain | cons plain _ =>
          obtain ⟨rfl, -⟩ := List.cons.inj same
          simp [comma] at plain
      | comma following =>
          obtain ⟨rfl, behind⟩ := ih following (by simpa using same)
          exact ⟨rfl, behind⟩

end Word

theorem stringPart_unique {part part' : List Char} (isPart : StringPart part)
    (isPart' : StringPart part') (same : part ++ rest = part' ++ rest') :
    part = part' ∧ rest = rest' := by
  rcases isPart with ⟨c, noEscape, -, rfl⟩ | ⟨c, rfl⟩ <;>
    rcases isPart' with ⟨d, noEscape', -, rfl⟩ | ⟨d, rfl⟩
  · simpa using same
  · exact absurd (List.cons.inj same).1 noEscape
  · exact absurd (List.cons.inj same).1.symm noEscape'
  · simpa using same

theorem stringPart_starts {part : List Char} (isPart : StringPart part) :
    ∃ c others, part = c :: others ∧ c ≠ '"' := by
  rcases isPart with ⟨c, -, noQuote, rfl⟩ | ⟨c, rfl⟩
  · exact ⟨c, [], rfl, noQuote⟩
  · exact ⟨'\\', [c], rfl, by decide⟩

/-- The first quote that is not escaped closes a string. -/
theorem quoted_unique {parts parts' : List (List Char)} (each : ∀ part ∈ parts, StringPart part)
    (each' : ∀ part ∈ parts', StringPart part)
    (same : parts.flatten ++ '"' :: rest = parts'.flatten ++ '"' :: rest') :
    parts = parts' ∧ rest = rest' := by
  induction parts generalizing parts' with
  | nil =>
      cases parts' with
      | nil => simpa using same
      | cons part' parts' =>
          obtain ⟨c, others, rfl, noQuote⟩ := stringPart_starts (each' part' List.mem_cons_self)
          exact absurd (List.cons.inj same).1.symm noQuote
  | cons part parts ih =>
      obtain ⟨isPart, inParts⟩ := List.forall_mem_cons.mp each
      cases parts' with
      | nil =>
          obtain ⟨c, others, rfl, noQuote⟩ := stringPart_starts isPart
          exact absurd (List.cons.inj same).1 noQuote
      | cons part' parts' =>
          obtain ⟨isPart', inParts'⟩ := List.forall_mem_cons.mp each'
          rw [List.flatten_cons, List.flatten_cons, List.append_assoc, List.append_assoc] at same
          obtain ⟨rfl, others⟩ := stringPart_unique isPart isPart' same
          obtain ⟨rfl, behind⟩ := ih inParts inParts' others
          exact ⟨rfl, behind⟩

namespace Atomic

theorem starts (atomic : Atomic front) :
    ∃ c others, front = c :: others ∧ c ≠ '(' ∧ c ≠ ')' ∧ c ≠ ' ' := by
  cases atomic with
  | word word =>
      obtain ⟨c, others, shape, starts⟩ := word.starts
      refine ⟨c, others, shape, ?_⟩
      rcases starts with plain | rfl
      · refine ⟨?_, ?_, ?_⟩ <;> rintro rfl <;> exact absurd plain (by decide)
      · decide
  | quoted each => exact ⟨_, _, rfl, by decide⟩

theorem unique (atomic : Atomic front) (atomic' : Atomic front') (ends : Ends rest)
    (ends' : Ends rest') (same : front ++ rest = front' ++ rest') :
    front = front' ∧ rest = rest' := by
  have noQuote : ∀ {chars behind others : List Char}, Word chars →
      chars ++ behind ≠ '"' :: others := by
    intro chars behind others word shape
    obtain ⟨c, chars, rfl, starts⟩ := word.starts
    obtain ⟨rfl, -⟩ := List.cons.inj shape
    revert starts
    decide
  cases atomic with
  | word word =>
      cases atomic' with
      | word word' => exact word.unique word' ends ends' same
      | quoted _ => exact absurd same (noQuote word)
  | quoted each =>
      cases atomic' with
      | word word' => exact absurd same.symm (noQuote word')
      | quoted each' =>
          obtain ⟨rfl, behind⟩ := quoted_unique each each' (by simpa using same)
          exact ⟨rfl, behind⟩

end Atomic

/-- All atoms are words or quoted. -/
inductive WellFormed : Sexpr → Prop
  | atom {text : String} (atomic : Atomic text.toList) : WellFormed (atom text)
  | list {items : List Sexpr} (each : ∀ item ∈ items, WellFormed item) : WellFormed (list items)

/-- Where the text of the item starts, no other item starts, and it ends where it ends. -/
def ReadOnce (item : Sexpr) : Prop :=
  ∀ ⦃item' : Sexpr⦄ ⦃rest rest' : List Char⦄, item'.WellFormed → Ends rest → Ends rest' →
    item.text.toList ++ rest = item'.text.toList ++ rest' → item = item' ∧ rest = rest'

theorem ends_behind (items : List Sexpr) : Ends (behind items ++ ')' :: rest) := by
  cases items <;> simp [behind, Ends]

theorem behind_unique {items items' : List Sexpr} (each : ∀ item ∈ items, ReadOnce item)
    (each' : ∀ item ∈ items', item.WellFormed)
    (same : behind items ++ ')' :: rest = behind items' ++ ')' :: rest') :
    items = items' ∧ rest = rest' := by
  induction items generalizing items' with
  | nil =>
      cases items' with
      | nil => simpa [behind] using same
      | cons item' items' => simp [behind] at same
  | cons item items ih =>
      cases items' with
      | nil => simp [behind] at same
      | cons item' items' =>
          obtain ⟨readOnce, others⟩ := List.forall_mem_cons.mp each
          obtain ⟨wellFormed', others'⟩ := List.forall_mem_cons.mp each'
          have inside : item.text.toList ++ (behind items ++ ')' :: rest) =
              item'.text.toList ++ (behind items' ++ ')' :: rest') := by
            simpa [behind] using same
          obtain ⟨rfl, following⟩ :=
            readOnce wellFormed' (ends_behind items) (ends_behind items') inside
          obtain ⟨rfl, left⟩ := ih others others' following
          exact ⟨rfl, left⟩

theorem WellFormed.starts {item : Sexpr} (wellFormed : item.WellFormed) :
    ∃ c others, item.text.toList = c :: others ∧ c ≠ ')' := by
  cases wellFormed with
  | atom atomic =>
      obtain ⟨c, others, shape, -, noClosing, -⟩ := atomic.starts
      exact ⟨c, others, shape, noClosing⟩
  | list each => exact ⟨'(', _, toList_list _, by decide⟩

/-- No list with items closes at once. -/
theorem WellFormed.joined_ne {first : Sexpr} (wellFormed : first.WellFormed)
    (others : List Sexpr) : (joined (first :: others)).toList ++ rest ≠ ')' :: rest' := by
  obtain ⟨c, chars, shape, noClosing⟩ := wellFormed.starts
  rw [toList_joined, shape]
  exact fun same => noClosing (List.cons.inj same).1

theorem joined_unique {items items' : List Sexpr} (readOnce : ∀ item ∈ items, ReadOnce item)
    (each : ∀ item ∈ items, item.WellFormed) (each' : ∀ item ∈ items', item.WellFormed)
    (same : (joined items).toList ++ ')' :: rest = (joined items').toList ++ ')' :: rest') :
    items = items' ∧ rest = rest' := by
  cases items with
  | nil =>
      cases items' with
      | nil => simpa [joined] using same
      | cons first' others' =>
          exact absurd same.symm ((each' first' List.mem_cons_self).joined_ne others')
  | cons first others =>
      cases items' with
      | nil => exact absurd same ((each first List.mem_cons_self).joined_ne others)
      | cons first' others' =>
          refine behind_unique readOnce each' ?_
          rw [toList_joined, toList_joined] at same
          simpa [behind] using same

/-- A list starts as no atom does, and its items are read one after the other. -/
theorem WellFormed.readOnce {item : Sexpr} (wellFormed : item.WellFormed) : item.ReadOnce := by
  induction wellFormed with
  | @atom own atomic =>
      intro item' rest rest' wellFormed' ends ends' same
      cases wellFormed' with
      | @atom own' atomic' =>
          obtain ⟨sameText, left⟩ := atomic.unique atomic' ends ends' same
          exact ⟨congrArg Sexpr.atom (String.toList_inj.mp sameText), left⟩
      | @list items' _ =>
          obtain ⟨c, others, shape, noOpening, -⟩ := atomic.starts
          rw [toList_list, text, shape] at same
          exact absurd (List.cons.inj same).1 noOpening
  | @list items each ih =>
      intro item' rest rest' wellFormed' ends ends' same
      cases wellFormed' with
      | @atom own' atomic' =>
          obtain ⟨c, others, shape, noOpening, -⟩ := atomic'.starts
          rw [toList_list, text, shape] at same
          exact absurd (List.cons.inj same).1.symm noOpening
      | @list items' each' =>
          have inside : (joined items).toList ++ ')' :: rest =
              (joined items').toList ++ ')' :: rest' := by
            simpa [toList_list] using same
          obtain ⟨sameItems, left⟩ := joined_unique ih each each' inside
          exact ⟨congrArg Sexpr.list sameItems, left⟩

/-- The text determines the tree. -/
theorem WellFormed.eq_of_text {item item' : Sexpr} (wellFormed : item.WellFormed)
    (wellFormed' : item'.WellFormed) (same : item.text = item'.text) : item = item' := by
  have ends : Ends [] := by simp [Ends]
  exact (wellFormed.readOnce wellFormed' ends ends (congrArg (·.toList ++ []) same)).1

end Sexpr

end QueryLoop
