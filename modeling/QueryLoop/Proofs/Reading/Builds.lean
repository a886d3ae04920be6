import QueryLoop.Proofs.Reading.Ensures

namespace QueryLoop.Parsing.Parser

variable {τ α β : Type}

/-- Where all tokens in front of it are good, the reader builds a fine value and leaves good
tokens. -/
def Builds (reader : Parser τ α) (good : τ → Prop) (fine : α → Prop) : Prop :=
  ∀ ⦃cursor furthest value after errors furthest'⦄,
    reader cursor furthest = .accepted value after errors furthest' →
      (∀ lexeme ∈ cursor.rest, good lexeme.token) →
        fine value ∧ ∀ lexeme ∈ after.rest, good lexeme.token

theorem Ensures.builds {reader : Parser τ α} {good : τ → Prop} {fine : α → Prop} {post : Post τ α}
    (ensured : reader.Ensures post)
    (made : ∀ used rest value errors, post used rest value errors →
      (∀ lexeme ∈ used, good lexeme.token) → fine value) : reader.Builds good fine := by
  intro cursor furthest value after errors furthest' accepted allGood
  obtain ⟨used, taken, held⟩ := ensured accepted
  rw [taken.rest] at allGood
  obtain ⟨inUsed, left⟩ := List.forall_mem_append.mp allGood
  exact ⟨made _ _ _ _ held inUsed, left⟩

theorem Ensures.passes {reader : Parser τ α} {good : τ → Prop} {post : Post τ α}
    (ensured : reader.Ensures post) : reader.Builds good fun _ => True :=
  ensured.builds fun _ _ _ _ _ _ => trivial

namespace Builds

variable {reader first : Parser τ α} {good : τ → Prop} {fine : α → Prop} {fine' : β → Prop}

theorem mono {weaker : α → Prop} (builds : reader.Builds good fine)
    (implied : ∀ value, fine value → weaker value) : reader.Builds good weaker := by
  intro cursor furthest value after errors furthest' accepted allGood
  obtain ⟨isFine, left⟩ := builds accepted allGood
  exact ⟨implied value isFine, left⟩

theorem pure {value : α} (isFine : fine value) : (pure value : Parser τ α).Builds good fine := by
  intro cursor furthest found after errors furthest' accepted allGood
  cases accepted
  exact ⟨isFine, allGood⟩

theorem pure_pair {value : α} {value' : β} (isFine : fine value) (isFine' : fine' value') :
    (Pure.pure (value, value') : Parser τ (α × β)).Builds good fun found =>
      fine found.1 ∧ fine' found.2 :=
  pure ⟨isFine, isFine'⟩

theorem bind {second : α → Parser τ β} (builds : first.Builds good fine)
    (following : ∀ value, fine value → (second value).Builds good fine') :
    (first >>= second).Builds good fine' := by
  intro cursor furthest result after errors furthest' accepted allGood
  change Parser.bind first second cursor furthest = _ at accepted
  unfold Parser.bind at accepted
  split at accepted
  · simp at accepted
  · rename_i value middle early furthest₁ run₁
    split at accepted
    · simp at accepted
    · rename_i found behind late furthest₂ run₂
      cases accepted
      obtain ⟨isFine, left⟩ := builds run₁ allGood
      exact following value isFine run₂ left

theorem orElse {second : Parser τ α} (left : first.Builds good fine)
    (right : second.Builds good fine) : (first <|> second).Builds good fine := by
  intro cursor furthest value after errors furthest' accepted allGood
  change Parser.orElse first (fun _ => second) cursor furthest = _ at accepted
  unfold Parser.orElse at accepted
  split at accepted
  · exact right accepted allGood
  · exact left accepted allGood

theorem optional (builds : reader.Builds good fine) :
    (Parser.optional reader).Builds good fun found => ∀ value ∈ found, fine value := by
  intro cursor furthest value after errors furthest' accepted allGood
  unfold Parser.optional at accepted
  split at accepted
  · cases accepted
    exact ⟨by simp, allGood⟩
  · rename_i run
    cases accepted
    obtain ⟨isFine, left⟩ := builds run allGood
    exact ⟨by simpa using isFine, left⟩

theorem spanned (builds : reader.Builds good fine) :
    (Parser.spanned reader).Builds good fun found => fine found.1 := by
  intro cursor furthest value after errors furthest' accepted allGood
  unfold Parser.spanned at accepted
  split at accepted
  · simp at accepted
  · rename_i run
    cases accepted
    exact builds run allGood

theorem report (span : Span) (cause : Cause τ) :
    (Parser.report span cause).Builds good fun _ => True := by
  intro cursor furthest value after errors furthest' accepted allGood
  cases accepted
  exact ⟨trivial, allGood⟩

/-- Looking ahead takes nothing. -/
theorem ahead (reader : Parser τ α) : (Parser.ahead reader).Builds good fun _ => True := by
  intro cursor furthest value after errors furthest' accepted allGood
  unfold Parser.ahead at accepted
  split at accepted
  · simp at accepted
  · cases accepted
    exact ⟨trivial, allGood⟩

theorem manyWithin (builds : reader.Builds good fine) (budget : List (Lexeme τ)) :
    Builds (manyWithin reader budget) good fun values => ∀ value ∈ values, fine value := by
  induction budget with
  | nil =>
      intro cursor furthest values after errors furthest' accepted allGood
      unfold Parser.manyWithin at accepted
      split at accepted
      · cases accepted
        exact ⟨by simp, allGood⟩
      · rename_i run
        cases accepted
        obtain ⟨isFine, left⟩ := builds run allGood
        exact ⟨by simpa using isFine, left⟩
  | cons spare budget ih =>
      intro cursor furthest values after errors furthest' accepted allGood
      unfold Parser.manyWithin at accepted
      split at accepted
      · cases accepted
        exact ⟨by simp, allGood⟩
      · rename_i run
        split at accepted
        · simp at accepted
        · rename_i runs
          cases accepted
          obtain ⟨isFine, left⟩ := builds run allGood
          obtain ⟨areFine, left'⟩ := ih runs left
          exact ⟨List.forall_mem_cons.mpr ⟨isFine, areFine⟩, left'⟩

theorem many (builds : reader.Builds good fine) :
    (Parser.many reader).Builds good fun values => ∀ value ∈ values, fine value :=
  fun _ _ _ _ _ _ accepted => builds.manyWithin _ accepted

theorem separated1 {separator : Parser τ Unit} (builds : reader.Builds good fine)
    (passes : separator.Builds good fun _ => True) :
    (Parser.separated1 reader separator).Builds good fun values =>
      values ≠ [] ∧ ∀ value ∈ values, fine value :=
  builds.bind fun _ isFine => (many (passes.bind fun _ _ => builds)).bind fun _ areFine =>
    pure ⟨List.cons_ne_nil _ _, List.forall_mem_cons.mpr ⟨isFine, areFine⟩⟩

theorem separated {separator : Parser τ Unit} (builds : reader.Builds good fine)
    (passes : separator.Builds good fun _ => True) :
    (Parser.separated reader separator).Builds good fun values => ∀ value ∈ values, fine value :=
  orElse ((builds.separated1 passes).mono fun _ fineValues => fineValues.2) (pure (by simp))

theorem between {opening closing : Parser τ Unit} (opens : opening.Builds good fun _ => True)
    (closes : closing.Builds good fun _ => True) (builds : reader.Builds good fine) :
    (Parser.between opening closing reader).Builds good fine :=
  opens.bind fun _ _ => builds.bind fun _ isFine => closes.bind fun _ _ => pure isFine

theorem recursive {rule : Parser τ α → Parser τ α}
    (step : ∀ inner : Parser τ α, inner.Builds good fine → (rule inner).Builds good fine) :
    (Parser.recursive rule).Builds good fine := by
  have unrolled : ∀ budget, Builds (unrolled rule budget) good fine := by
    intro budget
    induction budget with
    | nil =>
        refine step _ fun cursor furthest value after errors furthest' accepted => ?_
        simp at accepted
    | cons spare budget ih => exact step _ ih
  intro cursor furthest value after errors furthest' accepted
  exact unrolled cursor.rest accepted

section
variable [DecidableEq τ]

theorem select {accept : τ → Option α} {expected : List (Expected τ)}
    (made : ∀ token value, good token → accept token = some value → fine value) :
    (Parser.select accept expected).Builds good fine := by
  refine (ensures_select accept expected).builds ?_
  rintro used rest value errors ⟨lexeme, rfl, chosen, -⟩ allGood
  exact made lexeme.token value (allGood lexeme List.mem_cons_self) chosen

theorem token (wanted : τ) : (Parser.token wanted).Builds good fun _ => True :=
  (ensures_token wanted).passes

theorem labelled (label : String) (builds : reader.Builds good fine) :
    (Parser.labelled label reader).Builds good fine := by
  intro cursor furthest value after errors furthest' accepted allGood
  unfold Parser.labelled at accepted
  split at accepted
  · simp at accepted
  · rename_i run
    cases accepted
    exact builds run allGood

end

theorem recoverWith {instead : Parser τ α} (replaces : instead.Builds good fine)
    (builds : reader.Builds good fine) : (Parser.recoverWith instead reader).Builds good fine := by
  intro cursor furthest value after errors furthest' accepted allGood
  unfold Parser.recoverWith at accepted
  split at accepted
  · rename_i run
    cases accepted
    exact builds run allGood
  · split at accepted
    · simp at accepted
    · rename_i run
      cases accepted
      exact replaces run allGood

theorem retryAfter (builds : reader.Builds good fine) {failure : Failure τ} {inputStop : Nat}
    {rest : List (Lexeme τ)} {index : Nat} {value : α} {after : Cursor τ}
    {errors : List (SyntaxError τ)} {furthest : Option (Failure τ)}
    (accepted : retryAfter reader failure inputStop rest index =
      .accepted value after errors furthest)
    (allGood : ∀ lexeme ∈ rest, good lexeme.token) :
    fine value ∧ ∀ lexeme ∈ after.rest, good lexeme.token := by
  induction rest generalizing index with
  | nil => simp [Parser.retryAfter] at accepted
  | cons dropped rest ih =>
      obtain ⟨-, others⟩ := List.forall_mem_cons.mp allGood
      unfold Parser.retryAfter at accepted
      simp only at accepted
      split at accepted
      · rename_i run
        cases accepted
        exact builds run others
      · exact ih accepted others

theorem skipAndRetry (builds : reader.Builds good fine) :
    (Parser.skipAndRetry reader).Builds good fine := by
  intro cursor furthest value after errors furthest' accepted allGood
  unfold Parser.skipAndRetry at accepted
  split at accepted
  · rename_i run
    cases accepted
    exact builds run allGood
  · exact builds.retryAfter accepted allGood

theorem run [DecidableEq τ] (builds : reader.Builds good fine) {lexemes : List (Lexeme τ)}
    {stop : Nat} {value : α} {errors : List (SyntaxError τ)}
    (allGood : ∀ lexeme ∈ lexemes, good lexeme.token)
    (ran : reader.run lexemes stop = (some value, errors)) : fine value := by
  unfold Parser.run at ran
  split at ran
  · simp at ran
  · rename_i found after early furthest accepted
    obtain ⟨isFine, -⟩ := builds accepted allGood
    split at ran
    · simp at ran
    · obtain rfl : found = value := by simpa using congrArg Prod.fst ran
      exact isFine

end Builds

end QueryLoop.Parsing.Parser
