import QueryLoop.Pipeline.Lambda
import Mathlib.Data.List.Nodup
import Mathlib.Data.List.Perm.Subperm

namespace QueryLoop

/-! The first free name.

A name for a parameter is searched for by trying: first the preferred name, then the
preferred name with 1, 2, and so on behind it, until one is not taken.  Nothing in the
search counts down.  It ends because the names to try all differ and only finitely many
are taken, so after as many passes as there are taken names a free one has come up.  The
main statement is that every search ends, and at the first of the names that is free.
-/

theorem numberedName_succ_ne (preferred : String) (number : Nat) :
    numberedName preferred (number + 1) ≠ preferred := by
  intro equal
  have digits : 0 < (toString (number + 1)).length := Nat.length_repr_pos
  rw [String.append_eq_left_iff.mp equal] at digits
  cases digits

theorem numberedName_injective (preferred : String) :
    Function.Injective (numberedName preferred) := by
  intro first second equal
  cases first with
  | zero =>
      cases second with
      | zero => rfl
      | succ second => exact absurd equal.symm (numberedName_succ_ne preferred second)
  | succ first =>
      cases second with
      | zero => exact absurd equal (numberedName_succ_ne preferred first)
      | succ second =>
          have digits : Nat.repr (first + 1) = Nat.repr (second + 1) :=
            (String.append_right_inj preferred).mp equal
          have written : Nat.toDigits 10 (first + 1) = Nat.toDigits 10 (second + 1) := by
            rw [← Nat.toList_repr, digits, Nat.toList_repr]
          have number := congrArg (Nat.ofDigitChars 10 · 0) written
          simpa only [Nat.ofDigitChars_ten_toDigits] using number

variable {taken : List String} {preferred found : String} {number passes : Nat}

/-- The names to try are all different, so no more of them are taken than there are
taken names. -/
theorem le_length_of_numberedName_mem
    (allTaken : ∀ earlier < number, numberedName preferred earlier ∈ taken) :
    number ≤ taken.length := by
  have different : ((List.range number).map (numberedName preferred)).Nodup :=
    List.nodup_range.map (numberedName_injective preferred)
  have inside : (List.range number).map (numberedName preferred) ⊆ taken := by
    intro name tried
    obtain ⟨earlier, before, rfl⟩ := List.mem_map.mp tried
    exact allTaken earlier (List.mem_range.mp before)
  simpa using (List.subperm_of_subset different inside).length_le

/-- The name with this number is free, and the ones before it are taken. -/
def IsFirstFree (taken : List String) (preferred : String) (number : Nat) : Prop :=
  numberedName preferred number ∉ taken ∧
    ∀ earlier < number, numberedName preferred earlier ∈ taken

theorem IsFirstFree.unique {other : Nat} (first : IsFirstFree taken preferred number)
    (second : IsFirstFree taken preferred other) : number = other := by
  rcases Nat.lt_trichotomy number other with before | same | behind
  · exact absurd (second.2 number before) first.1
  · exact same
  · exact absurd (first.2 other behind) second.1

theorem exists_freshName_eq (taken : List String) (preferred : String) :
    ∃ number, freshName taken preferred = numberedName preferred number ∧
      IsFirstFree taken preferred number := by
  unfold freshName
  rw [List.find?_map]
  cases search : (List.range (taken.length + 1)).find?
      ((fun name => decide (name ∉ taken)) ∘ numberedName preferred) with
  | some number =>
      obtain ⟨free, -, earlier⟩ := List.find?_range_eq_some.mp search
      exact ⟨number, rfl, by simpa using free, by simpa using earlier⟩
  | none =>
      have allTaken : ∀ number < taken.length + 1, numberedName preferred number ∈ taken := by
        simpa using List.find?_range_eq_none.mp search
      have tooMany := le_length_of_numberedName_mem allTaken
      omega

theorem freshName_notMem (taken : List String) (preferred : String) :
    freshName taken preferred ∉ taken := by
  obtain ⟨number, name_eq, free, -⟩ := exists_freshName_eq taken preferred
  exact name_eq ▸ free

/-- Where a search has come to: the name to try, and the number for the next one. -/
structure Search where
  candidate : String
  number : Nat

namespace Search

def start (preferred : String) : Search :=
  ⟨preferred, 1⟩

/-- One pass of the search; nothing if the candidate is free. -/
def pass? (taken : List String) (preferred : String) (search : Search) : Option Search :=
  if search.candidate ∈ taken then
    some ⟨preferred ++ toString search.number, search.number + 1⟩
  else none

/-- The search stops at a name after so many passes. -/
inductive StopsAt (taken : List String) (preferred : String) :
    (search : Search) → (passes : Nat) → (found : String) → Prop
  | free {search : Search} (ended : search.pass? taken preferred = none) :
      StopsAt taken preferred search 0 search.candidate
  | again {search next : Search} {passes : Nat} {found : String}
      (pass : search.pass? taken preferred = some next)
      (later : StopsAt taken preferred next passes found) :
      StopsAt taken preferred search (passes + 1) found

/-- The search that has come to the name with this number. -/
def trying (preferred : String) (number : Nat) : Search :=
  ⟨numberedName preferred number, number + 1⟩

theorem start_eq_trying (preferred : String) : start preferred = trying preferred 0 := rfl

/-- A pass over a taken name leads to the name with the next number. -/
theorem pass?_trying : (trying preferred number).pass? taken preferred =
    if numberedName preferred number ∈ taken then some (trying preferred (number + 1))
    else none := rfl

/-- A search stops after some passes exactly if it has tried that many taken names and
the next one is free. -/
theorem stopsAt_trying_iff : StopsAt taken preferred (trying preferred number) passes found ↔
    found = numberedName preferred (passes + number) ∧
      numberedName preferred (passes + number) ∉ taken ∧
      ∀ earlier < passes, numberedName preferred (earlier + number) ∈ taken := by
  induction passes generalizing number with
  | zero =>
      rw [Nat.zero_add]
      constructor
      · intro stops
        cases stops with
        | free ended => exact ⟨rfl, by simpa [pass?_trying] using ended, by simp⟩
      · rintro ⟨rfl, free, -⟩
        exact .free (by rw [pass?_trying, if_neg free])
  | succ passes ih =>
      -- the first of the taken names is the candidate, the others are tried from the next pass on
      simp only [Nat.forall_lt_succ_left, Nat.zero_add, Nat.add_assoc, Nat.add_comm 1]
      constructor
      · intro stops
        cases stops with
        | again pass later =>
            rw [pass?_trying, Option.ite_none_right_eq_some] at pass
            obtain ⟨occupied, next_eq⟩ := pass
            cases next_eq
            obtain ⟨found_eq, free, before⟩ := ih.mp later
            exact ⟨found_eq, free, occupied, before⟩
      · rintro ⟨found_eq, free, occupied, before⟩
        exact .again (by rw [pass?_trying, if_pos occupied]) (ih.mpr ⟨found_eq, free, before⟩)

theorem stopsAt_start_iff : StopsAt taken preferred (start preferred) passes found ↔
    found = numberedName preferred passes ∧ IsFirstFree taken preferred passes := by
  rw [start_eq_trying, stopsAt_trying_iff]
  simp only [Nat.add_zero, IsFirstFree]

end Search

namespace Resolver

variable {resolver : Resolver} {expr : Expr} {var name : String}

/-- Some identifier of the expression has the name and denotes something else than
`var`. -/
def Takes (resolver : Resolver) (expr : Expr) (var name : String) : Prop :=
  ∃ span, Node.expr (.ident span name) ∈ expr.nodes ∧
    resolver.identity? (.ident span name) ≠ some var

theorem mem_otherNames_iff :
    name ∈ resolver.otherNames expr var ↔ resolver.Takes expr var name := by
  simp only [otherNames, Expr.identifiers, Node.identifiers, List.mem_filterMap, List.mem_filter]
  constructor
  · rintro ⟨found, ⟨⟨node, inside, matched⟩, other⟩, named⟩
    split at matched
    · cases matched
      cases named
      exact ⟨_, inside, by simpa [denotes] using other⟩
    · cases matched
  · rintro ⟨span, inside, other⟩
    exact ⟨_, ⟨⟨_, inside, rfl⟩, by simpa [denotes] using other⟩, rfl⟩

/-- The search for a parameter always ends: it stops at one name after one number of
passes, which is never larger than the number of taken names.  That name is the
parameter, and it is the first one to try that no identifier with another meaning has. -/
theorem search_stopsAt_parameterFor (resolver : Resolver) (expr : Expr) (var preferred : String) :
    ∃ passes ≤ (resolver.otherNames expr var).length,
      (∀ count found, Search.StopsAt (resolver.otherNames expr var) preferred (.start preferred)
        count found ↔ count = passes ∧ found = resolver.parameterFor expr var preferred) ∧
      resolver.parameterFor expr var preferred = numberedName preferred passes ∧
      ¬resolver.Takes expr var (numberedName preferred passes) ∧
      ∀ earlier < passes, resolver.Takes expr var (numberedName preferred earlier) := by
  obtain ⟨passes, name_eq, first⟩ :=
    exists_freshName_eq (resolver.otherNames expr var) preferred
  refine ⟨passes, le_length_of_numberedName_mem first.2, fun count found => ?_, name_eq, ?_⟩
  · rw [Search.stopsAt_start_iff, parameterFor, name_eq]
    constructor
    · rintro ⟨rfl, stopped⟩
      obtain rfl := stopped.unique first
      exact ⟨rfl, rfl⟩
    · rintro ⟨rfl, rfl⟩
      exact ⟨rfl, first⟩
  · simpa only [IsFirstFree, mem_otherNames_iff] using first

/-- `foo.Count > x + x1` over `foo`: the names `x` and `x1` are taken. -/
example :
    let sum : Expr := .binary default .plus (.ident default "x") (.ident default "x1")
    let count : Expr := .member default (.ident default "foo") "Count" []
    textual.parameterFor (.binary default .greater count sum) "foo" "x" = "x2" := by
  decide

end Resolver

end QueryLoop
