import QueryLoop.Proofs.Reading.Cleanly

namespace QueryLoop.Parsing.Parser

variable {τ α β : Type}

/-- Where the reader accepts, it reports nothing. -/
def Quiet (reader : Parser τ α) : Prop :=
  ∀ ⦃cursor furthest value after errors furthest'⦄,
    reader cursor furthest = .accepted value after errors furthest' → errors = []

theorem Reads.ensures {reader : Parser τ α} {post : CleanPost τ α} (reads : reader.Reads post)
    (quiet : reader.Quiet) : reader.Ensures fun used rest value _ => post used rest value := by
  intro cursor furthest value after errors furthest' accepted
  obtain ⟨used, taken, held⟩ := reads accepted
  exact ⟨used, taken, held (quiet accepted)⟩

namespace Quiet

variable {reader first : Parser τ α}

theorem pure (value : α) : (pure value : Parser τ α).Quiet := by
  intro cursor furthest found after errors furthest' accepted
  cases accepted
  rfl

theorem bind {second : α → Parser τ β} (quiet : first.Quiet)
    (following : ∀ value, (second value).Quiet) : (first >>= second).Quiet := by
  intro cursor furthest result after errors furthest' accepted
  change Parser.bind first second cursor furthest = _ at accepted
  unfold Parser.bind at accepted
  split at accepted
  · simp at accepted
  · rename_i value middle early furthest₁ run₁
    split at accepted
    · simp at accepted
    · rename_i found behind late furthest₂ run₂
      cases accepted
      rw [quiet run₁, following value run₂, List.append_nil]

theorem orElse {second : Parser τ α} (left : first.Quiet) (right : second.Quiet) :
    (first <|> second).Quiet := by
  intro cursor furthest value after errors furthest' accepted
  change Parser.orElse first (fun _ => second) cursor furthest = _ at accepted
  unfold Parser.orElse at accepted
  split at accepted
  · exact right accepted
  · exact left accepted

theorem andAlso {also : Parser τ β} (quiet : reader.Quiet) : (andAlso reader also).Quiet := by
  intro cursor furthest value after errors furthest' accepted
  unfold Parser.andAlso at accepted
  split at accepted
  · simp at accepted
  · rename_i run
    split at accepted
    · simp at accepted
    · cases accepted
      exact quiet run

theorem manyWithin (quiet : reader.Quiet) (budget : List (Lexeme τ)) :
    Quiet (manyWithin reader budget) := by
  induction budget with
  | nil =>
      intro cursor furthest values after errors furthest' accepted
      unfold Parser.manyWithin at accepted
      split at accepted
      · cases accepted
        rfl
      · rename_i run
        cases accepted
        exact quiet run
  | cons spare budget ih =>
      intro cursor furthest values after errors furthest' accepted
      unfold Parser.manyWithin at accepted
      split at accepted
      · cases accepted
        rfl
      · rename_i value middle early furthest₁ run
        split at accepted
        · simp at accepted
        · rename_i found behind late furthest₂ runs
          cases accepted
          rw [quiet run, ih runs, List.append_nil]

theorem many (quiet : reader.Quiet) : (many reader).Quiet :=
  fun _ _ _ _ _ _ accepted => quiet.manyWithin _ accepted

section
variable [DecidableEq τ]

theorem select (accept : τ → Option α) (expected : List (Expected τ)) :
    (select accept expected).Quiet := by
  intro cursor furthest value after errors furthest' accepted
  obtain ⟨-, -, -, -, -, quiet⟩ := ensures_select accept expected accepted
  exact quiet

theorem token (wanted : τ) : (token wanted).Quiet :=
  .select _ _

theorem satisfy (label : String) (holds : τ → Bool) : (satisfy label holds).Quiet := by
  intro cursor furthest value after errors furthest' accepted
  unfold Parser.satisfy at accepted
  repeat' split at accepted
  all_goals cases accepted
  rfl

theorem endOfInput : (endOfInput : Parser τ Unit).Quiet := by
  intro cursor furthest value after errors furthest' accepted
  unfold Parser.endOfInput at accepted
  split at accepted
  · cases accepted
    rfl
  · cases accepted

end

end Quiet

end QueryLoop.Parsing.Parser
