import QueryLoop.Parsing.Recovery

namespace QueryLoop.Parsing

/-! What holds whenever a reader accepts.

`reader.Ensures post` is a claim about every accepting run: the reader has taken
some lexemes off the front of the input, and `post` holds of those lexemes, of
the ones that are left, of the value and of the reported errors.  There is one
rule for each combinator, so a claim about a grammar rule is put together from
claims about the readers it is made of.
-/

variable {τ α β : Type}

/-- `after` is reached from `before` by taking the lexemes `used`. -/
structure Cursor.Takes (before : Cursor τ) (used : List (Lexeme τ)) (after : Cursor τ) :
    Prop where
  rest : before.rest = used ++ after.rest
  lastStop : after.lastStop = used.foldl (fun _ lexeme => lexeme.span.stop) before.lastStop
  inputStop : after.inputStop = before.inputStop

/-- From the start of the first lexeme to the end of the last one. -/
def spanOf (used : List (Lexeme τ)) : Span :=
  ⟨(used.head?.map (·.span.start)).getD 0, used.foldl (fun _ lexeme => lexeme.span.stop) 0⟩

namespace Cursor.Takes

variable {before middle after : Cursor τ} {used more : List (Lexeme τ)}

theorem refl (cursor : Cursor τ) : cursor.Takes [] cursor :=
  ⟨rfl, rfl, rfl⟩

theorem trans (first : before.Takes used middle) (second : middle.Takes more after) :
    before.Takes (used ++ more) after where
  rest := by rw [first.rest, second.rest, List.append_assoc]
  lastStop := by rw [second.lastStop, first.lastStop, List.foldl_append]
  inputStop := second.inputStop.trans first.inputStop

theorem next {cursor after : Cursor τ} {lexeme : Lexeme τ}
    (found : cursor.next? = some (lexeme, after)) : cursor.Takes [lexeme] after := by
  unfold Cursor.next? at found
  split at found
  · simp at found
  · rename_i first rest shape
    simp only [Option.some.injEq, Prod.mk.injEq] at found
    obtain ⟨rfl, rfl⟩ := found
    exact ⟨shape, rfl, rfl⟩

theorem spanTo_eq (taken : before.Takes used after) (nonempty : used ≠ []) :
    before.spanTo after = spanOf used := by
  obtain ⟨lexeme, others, rfl⟩ := List.exists_cons_of_ne_nil nonempty
  have shape : before.rest = lexeme :: (others ++ after.rest) := taken.rest
  simp only [Cursor.spanTo, shape, taken.lastStop, spanOf, List.head?_cons, Option.map_some,
    Option.getD_some, List.foldl_cons]

end Cursor.Takes

namespace Parser

/-- A claim about the lexemes taken, the lexemes left, the value and the errors. -/
abbrev Post (τ α : Type) : Type :=
  List (Lexeme τ) → List (Lexeme τ) → α → List (SyntaxError τ) → Prop

/-- The claim holds whenever the reader accepts. -/
def Ensures (reader : Parser τ α) (post : Post τ α) : Prop :=
  ∀ ⦃cursor furthest value after errors furthest'⦄,
    reader cursor furthest = .accepted value after errors furthest' →
      ∃ used, cursor.Takes used after ∧ post used after.rest value errors

/-- `reader` rejects somewhere with `rest` in front of it. -/
def Rejects (reader : Parser τ α) (rest : List (Lexeme τ)) : Prop :=
  ∃ cursor furthest failure, cursor.rest = rest ∧ reader cursor furthest = .rejected failure

/-- Readings one after the other, each before the lexemes of the later ones. -/
inductive Repeats (post : Post τ α) : Post τ (List α)
  | nil (rest : List (Lexeme τ)) : Repeats post [] rest [] []
  | cons {used more rest : List (Lexeme τ)} {value : α} {values : List α}
      {errors others : List (SyntaxError τ)} (first : post used (more ++ rest) value errors)
      (following : Repeats post more rest values others) :
      Repeats post (used ++ more) rest (value :: values) (errors ++ others)

variable {reader first : Parser τ α} {post other : Post τ α}

theorem Ensures.mono (ensured : reader.Ensures post)
    (weaker : ∀ used rest value errors, post used rest value errors →
      other used rest value errors) : reader.Ensures other := by
  intro cursor furthest value after errors furthest' accepted
  obtain ⟨used, taken, holds⟩ := ensured accepted
  exact ⟨used, taken, weaker _ _ _ _ holds⟩

/-- Two claims about the same reader hold of the same lexemes. -/
theorem Ensures.and (ensured : reader.Ensures post) (ensured' : reader.Ensures other) :
    reader.Ensures fun used rest value errors =>
      post used rest value errors ∧ other used rest value errors := by
  intro cursor furthest value after errors furthest' accepted
  obtain ⟨used, taken, held⟩ := ensured accepted
  obtain ⟨used', taken', held'⟩ := ensured' accepted
  have same : used = used' := List.append_cancel_right (taken.rest.symm.trans taken'.rest)
  exact ⟨used, taken, held, same ▸ held'⟩

theorem ensures_pure (value : α) :
    (pure value : Parser τ α).Ensures
      fun used _ found errors => used = [] ∧ found = value ∧ errors = [] := by
  intro cursor furthest found after errors furthest' accepted
  cases accepted
  exact ⟨[], .refl cursor, rfl, rfl, rfl⟩

theorem Ensures.bind {second : α → Parser τ β} {then' : α → Post τ β}
    (ensured : first.Ensures post) (following : ∀ value, (second value).Ensures (then' value)) :
    (first >>= second).Ensures fun used rest result errors =>
      ∃ front back value early late, used = front ++ back ∧ errors = early ++ late ∧
        post front (back ++ rest) value early ∧ then' value back rest result late := by
  intro cursor furthest result after errors furthest' accepted
  change Parser.bind first second cursor furthest = _ at accepted
  unfold Parser.bind at accepted
  split at accepted
  · simp at accepted
  · rename_i value middle early furthest₁ run₁
    split at accepted
    · simp at accepted
    · rename_i found behind late furthest₂ run₂
      cases accepted
      obtain ⟨front, taken₁, holds₁⟩ := ensured run₁
      obtain ⟨back, taken₂, holds₂⟩ := following value run₂
      exact ⟨front ++ back, taken₁.trans taken₂, front, back, value, early, late, rfl, rfl,
        taken₂.rest ▸ holds₁, holds₂⟩

theorem Ensures.orElse {second : Parser τ α} (left : first.Ensures post)
    (right : second.Ensures other) :
    (first <|> second).Ensures fun used rest value errors =>
      post used rest value errors ∨
        first.Rejects (used ++ rest) ∧ other used rest value errors := by
  intro cursor furthest value after errors furthest' accepted
  change Parser.orElse first (fun _ => second) cursor furthest = _ at accepted
  unfold Parser.orElse at accepted
  split at accepted
  · rename_i failure rejected
    obtain ⟨used, taken, holds⟩ := right accepted
    exact ⟨used, taken, .inr ⟨⟨cursor, furthest, failure, taken.rest, rejected⟩, holds⟩⟩
  · obtain ⟨used, taken, holds⟩ := left accepted
    exact ⟨used, taken, .inl holds⟩

theorem Ensures.optional (ensured : reader.Ensures post) :
    (Parser.optional reader).Ensures fun used rest value errors =>
      (∃ found, value = some found ∧ post used rest found errors) ∨
        value = none ∧ used = [] ∧ errors = [] ∧ reader.Rejects rest := by
  intro cursor furthest value after errors furthest' accepted
  unfold Parser.optional at accepted
  split at accepted
  · rename_i failure rejected
    cases accepted
    exact ⟨[], .refl cursor, .inr ⟨rfl, rfl, rfl, cursor, furthest, failure, rfl, rejected⟩⟩
  · rename_i found behind early furthest₁ run
    cases accepted
    obtain ⟨used, taken, holds⟩ := ensured run
    exact ⟨used, taken, .inl ⟨found, rfl, holds⟩⟩

theorem Ensures.spanned (ensured : reader.Ensures post) :
    (spanned reader).Ensures fun used rest value errors =>
      post used rest value.1 errors ∧ (used ≠ [] → value.2 = spanOf used) := by
  intro cursor furthest value after errors furthest' accepted
  unfold Parser.spanned at accepted
  split at accepted
  · simp at accepted
  · rename_i found behind early furthest₁ run
    cases accepted
    obtain ⟨used, taken, holds⟩ := ensured run
    exact ⟨used, taken, holds, taken.spanTo_eq⟩

theorem ensures_report (span : Span) (cause : Cause τ) :
    (report span cause).Ensures fun used _ _ errors => used = [] ∧ errors = [⟨span, cause⟩] := by
  intro cursor furthest value after errors furthest' accepted
  cases accepted
  exact ⟨[], .refl cursor, rfl, rfl⟩

theorem Ensures.ahead (ensured : reader.Ensures post) :
    (ahead reader).Ensures fun used rest _ errors =>
      used = [] ∧ errors = [] ∧
        ∃ front back value early, rest = front ++ back ∧ post front back value early := by
  intro cursor furthest value after errors furthest' accepted
  unfold Parser.ahead at accepted
  split at accepted
  · simp at accepted
  · rename_i found behind early furthest₁ run
    cases accepted
    obtain ⟨used, taken, holds⟩ := ensured run
    exact ⟨[], .refl cursor, rfl, rfl, used, behind.rest, found, early, taken.rest, holds⟩

/-- A reader that takes a lexeme each time runs out of lexemes before it runs out
of budget. -/
theorem Ensures.manyWithin (ensured : reader.Ensures post)
    (consumes : ∀ used rest value errors, post used rest value errors → used ≠ [])
    (budget : List (Lexeme τ)) {cursor after : Cursor τ} {furthest furthest' : Option (Failure τ)}
    {values : List α} {errors : List (SyntaxError τ)}
    (enough : cursor.rest.length ≤ budget.length)
    (accepted : manyWithin reader budget cursor furthest =
      .accepted values after errors furthest') :
    ∃ used, cursor.Takes used after ∧ Repeats post used after.rest values errors ∧
      reader.Rejects after.rest := by
  induction budget generalizing cursor furthest values errors with
  | nil =>
      unfold Parser.manyWithin at accepted
      split at accepted
      · rename_i failure rejected
        cases accepted
        exact ⟨[], .refl _, .nil _, _, furthest, failure, rfl, rejected⟩
      · rename_i value behind early furthest₁ run
        obtain ⟨used, taken, holds⟩ := ensured run
        have none_left : cursor.rest = [] := List.eq_nil_of_length_eq_zero (Nat.le_zero.mp enough)
        have none_taken : used = [] :=
          (List.append_eq_nil_iff.mp (taken.rest.symm.trans none_left)).1
        exact absurd none_taken (consumes _ _ _ _ holds)
  | cons spare budget ih =>
      unfold Parser.manyWithin at accepted
      split at accepted
      · rename_i failure rejected
        cases accepted
        exact ⟨[], .refl _, .nil _, _, furthest, failure, rfl, rejected⟩
      · rename_i value middle early furthest₁ run
        obtain ⟨used, taken, holds⟩ := ensured run
        have shorter : middle.rest.length ≤ budget.length := by
          have some_taken := List.length_pos_iff.mpr (consumes _ _ _ _ holds)
          have whole := congrArg List.length taken.rest
          simp only [List.length_append, List.length_cons] at whole enough
          omega
        split at accepted
        · simp at accepted
        · rename_i found behind late furthest₂ runs
          cases accepted
          obtain ⟨more, taken', repeated, stopped⟩ := ih shorter runs
          exact ⟨used ++ more, taken.trans taken', .cons (taken'.rest ▸ holds) repeated, stopped⟩

theorem Ensures.many (ensured : reader.Ensures post)
    (consumes : ∀ used rest value errors, post used rest value errors → used ≠ []) :
    (many reader).Ensures fun used rest values errors =>
      Repeats post used rest values errors ∧ reader.Rejects rest := by
  intro cursor furthest values after errors furthest' accepted
  obtain ⟨used, taken, repeated, stopped⟩ :=
    ensured.manyWithin consumes cursor.rest (Nat.le_refl _) accepted
  exact ⟨used, taken, repeated, stopped⟩

/-- The readings after the first, each behind a separator. -/
def Behind (mark : Post τ Unit) (post : Post τ α) : Post τ α :=
  fun used rest value errors => ∃ front back early late, used = front ++ back ∧
    errors = early ++ late ∧ mark front (back ++ rest) () early ∧ post back rest value late

theorem Ensures.separated1 {separator : Parser τ Unit} {mark : Post τ Unit}
    (ensured : reader.Ensures post) (marked : separator.Ensures mark)
    (consumes : ∀ used rest value errors, mark used rest value errors → used ≠ []) :
    (separated1 reader separator).Ensures fun used rest values errors =>
      ∃ front back value others early late, used = front ++ back ∧ errors = early ++ late ∧
        values = value :: others ∧ post front (back ++ rest) value early ∧
        Repeats (Behind mark post) back rest others late := by
  have step : (do separator; reader).Ensures (Behind mark post) := by
    refine (marked.bind fun _ => ensured).mono ?_
    rintro used rest value errors ⟨front, back, _, early, late, rfl, rfl, sign, holds⟩
    exact ⟨front, back, early, late, rfl, rfl, sign, holds⟩
  have step_consumes : ∀ used rest value errors, Behind mark post used rest value errors →
      used ≠ [] := by
    rintro used rest value errors ⟨front, back, early, late, rfl, -, sign, -⟩
    exact List.append_ne_nil_of_left_ne_nil (consumes _ _ _ _ sign) _
  refine (ensured.bind fun value => (step.many step_consumes).bind fun others =>
    ensures_pure (value :: others)).mono ?_
  rintro used rest values errors ⟨front, back, value, early, late, rfl, rfl, holds,
    more, nothing, others, middle, final, rfl, rfl, ⟨repeated, -⟩, rfl, rfl, rfl⟩
  exact ⟨front, more, value, others, early, middle, by simp, by simp, rfl, by simpa using holds,
    by simpa using repeated⟩

theorem Ensures.separated {separator : Parser τ Unit} {mark : Post τ Unit}
    (ensured : reader.Ensures post) (marked : separator.Ensures mark)
    (consumes : ∀ used rest value errors, mark used rest value errors → used ≠ []) :
    (separated reader separator).Ensures fun used rest values errors =>
      (∃ front back value others early late, used = front ++ back ∧ errors = early ++ late ∧
        values = value :: others ∧ post front (back ++ rest) value early ∧
        Repeats (Behind mark post) back rest others late) ∨
      used = [] ∧ values = [] ∧ errors = [] := by
  refine ((ensured.separated1 marked consumes).orElse (ensures_pure [])).mono ?_
  rintro used rest values errors (some_read | ⟨-, rfl, rfl, rfl⟩)
  · exact .inl some_read
  · exact .inr ⟨rfl, rfl, rfl⟩

theorem Ensures.between {opening closing : Parser τ Unit} {open' close' : Post τ Unit}
    (opens : opening.Ensures open') (closes : closing.Ensures close')
    (ensured : reader.Ensures post) :
    (between opening closing reader).Ensures fun used rest value errors =>
      ∃ front inner back early errs late, used = front ++ (inner ++ back) ∧
        errors = early ++ (errs ++ late) ∧ open' front (inner ++ (back ++ rest)) () early ∧
        post inner (back ++ rest) value errs ∧ close' back rest () late := by
  refine (opens.bind fun _ => ensured.bind fun value => closes.bind fun _ =>
    ensures_pure value).mono ?_
  rintro used rest value errors ⟨front, tail, _, early, later, rfl, rfl, sign,
    inner, tail', found, errs, later', rfl, rfl, holds,
    back, nothing, _, late, final, rfl, rfl, sign', rfl, rfl, rfl⟩
  exact ⟨front, inner, back, early, errs, late, by simp, by simp, by simpa using sign,
    by simpa using holds, by simpa using sign'⟩

theorem Ensures.andAlso {also : Parser τ β} (ensured : reader.Ensures post) :
    (andAlso reader also).Ensures post := by
  intro cursor furthest value after errors furthest' accepted
  unfold Parser.andAlso at accepted
  split at accepted
  · simp at accepted
  · rename_i run
    split at accepted
    · simp at accepted
    · cases accepted
      exact ensured run

/-- A claim that the rule keeps is a claim about every unrolling of it. -/
theorem ensures_unrolled {rule : Parser τ α → Parser τ α}
    (step : ∀ inner : Parser τ α, inner.Ensures post → (rule inner).Ensures post)
    (budget : List (Lexeme τ)) : Parser.Ensures (unrolled rule budget) post := by
  induction budget with
  | nil =>
      apply step
      intro cursor furthest value after errors furthest' accepted
      simp at accepted
  | cons spare budget ih => exact step _ ih

theorem ensures_recursive {rule : Parser τ α → Parser τ α}
    (step : ∀ inner : Parser τ α, inner.Ensures post → (rule inner).Ensures post) :
    (recursive rule).Ensures post := by
  intro cursor furthest value after errors furthest' accepted
  exact ensures_unrolled step cursor.rest accepted

section
variable [DecidableEq τ]

theorem ensures_select (accept : τ → Option α) (expected : List (Expected τ)) :
    (select accept expected).Ensures fun used _ value errors =>
      ∃ lexeme, used = [lexeme] ∧ accept lexeme.token = some value ∧ errors = [] := by
  intro cursor furthest value after errors furthest' accepted
  unfold Parser.select at accepted
  split at accepted
  · simp at accepted
  · rename_i lexeme behind found
    split at accepted
    · simp at accepted
    · rename_i result chosen
      cases accepted
      exact ⟨[lexeme], .next found, lexeme, rfl, chosen, rfl⟩

theorem ensures_token (wanted : τ) :
    (token wanted).Ensures fun used _ _ errors =>
      ∃ lexeme, used = [lexeme] ∧ lexeme.token = wanted ∧ errors = [] := by
  refine (ensures_select _ _).mono ?_
  rintro used rest value errors ⟨lexeme, rfl, chosen, rfl⟩
  by_cases same : lexeme.token = wanted
  · exact ⟨lexeme, rfl, same, rfl⟩
  · simp [same] at chosen

theorem Ensures.labelled (label : String) (ensured : reader.Ensures post) :
    (labelled label reader).Ensures post := by
  intro cursor furthest value after errors furthest' accepted
  unfold Parser.labelled at accepted
  split at accepted
  · simp at accepted
  · rename_i run
    cases accepted
    exact ensured run

end

theorem Ensures.recoverWith {instead : Parser τ α} (ensured : reader.Ensures post)
    (replaced : instead.Ensures other) :
    (recoverWith instead reader).Ensures fun used rest value errors =>
      post used rest value errors ∨
        ∃ own error, errors = own ++ [error] ∧ other used rest value own := by
  intro cursor furthest value after errors furthest' accepted
  unfold Parser.recoverWith at accepted
  split at accepted
  · rename_i run
    cases accepted
    obtain ⟨used, taken, holds⟩ := ensured run
    exact ⟨used, taken, .inl holds⟩
  · split at accepted
    · simp at accepted
    · rename_i failure rejected found behind own furthest₁ run
      cases accepted
      obtain ⟨used, taken, holds⟩ := replaced run
      exact ⟨used, taken, .inr ⟨own, _, rfl, holds⟩⟩

theorem Ensures.retryAfter (ensured : reader.Ensures post) {failure : Failure τ}
    {inputStop : Nat} (lastStop : Nat) {rest : List (Lexeme τ)} {index : Nat} {value : α}
    {after : Cursor τ} {errors : List (SyntaxError τ)} {furthest : Option (Failure τ)}
    (accepted : retryAfter reader failure inputStop rest index =
      .accepted value after errors furthest) :
    ∃ dropped used, Cursor.Takes ⟨rest, index, lastStop, inputStop⟩ (dropped ++ used) after ∧
      post used after.rest value [] ∧ errors = [failure.toError] := by
  induction rest generalizing index lastStop with
  | nil => simp [Parser.retryAfter] at accepted
  | cons skipped rest ih =>
      unfold Parser.retryAfter at accepted
      have skip : Cursor.Takes ⟨skipped :: rest, index, lastStop, inputStop⟩ [skipped]
          ⟨rest, index + 1, skipped.span.stop, inputStop⟩ := .next rfl
      simp only at accepted
      split at accepted
      · rename_i run
        cases accepted
        obtain ⟨used, taken, holds⟩ := ensured run
        exact ⟨[skipped], used, skip.trans taken, holds, rfl⟩
      · obtain ⟨dropped, used, taken, holds, reported⟩ := ih skipped.span.stop accepted
        exact ⟨skipped :: dropped, used, skip.trans taken, holds, reported⟩

theorem Ensures.skipAndRetry (ensured : reader.Ensures post) :
    (skipAndRetry reader).Ensures fun used rest value errors =>
      post used rest value errors ∨
        ∃ dropped own error, used = dropped ++ own ∧ errors = [error] ∧
          post own rest value [] := by
  intro cursor furthest value after errors furthest' accepted
  unfold Parser.skipAndRetry at accepted
  split at accepted
  · rename_i run
    cases accepted
    obtain ⟨used, taken, holds⟩ := ensured run
    exact ⟨used, taken, .inl holds⟩
  · obtain ⟨dropped, used, taken, holds, rfl⟩ :=
      ensured.retryAfter cursor.lastStop accepted
    exact ⟨dropped ++ used, taken, .inr ⟨dropped, used, _, rfl, rfl, holds⟩⟩

section
variable [DecidableEq τ]

/-- Readers that take lexemes off the front and claim nothing more. -/
abbrev Advances (reader : Parser τ α) : Prop :=
  reader.Ensures fun _ _ _ _ => True

theorem advances_group {content : Parser τ Unit} (inner : content.Advances) (pair : τ × τ)
    (pairs : List (τ × τ)) :
    (group content pair pairs).Ensures fun used _ _ _ => used ≠ [] := by
  have delimited : ∀ pair : τ × τ,
      (between (token pair.1) (token pair.2) content).Ensures fun used _ _ _ => used ≠ [] := by
    intro pair
    refine ((ensures_token _).between (ensures_token _) inner).mono ?_
    rintro used rest value errors ⟨front, middle, back, early, errs, late, rfl, -,
      ⟨lexeme, rfl, -, -⟩, -, -⟩
    exact List.cons_ne_nil _ _
  induction pairs generalizing pair with
  | nil => exact delimited pair
  | cons next pairs ih =>
      refine ((delimited pair).orElse (ih next)).mono ?_
      rintro used rest value errors (taken | ⟨-, taken⟩) <;> exact taken

theorem advances_balanced (pair : τ × τ) (pairs : List (τ × τ)) :
    (balanced pair pairs).Advances := by
  refine ensures_recursive fun inner ensured => ?_
  have single : ∀ delimiters : List τ,
      (do let _ ← andAlso anyToken (noneOf delimiters); return () : Parser τ Unit).Ensures
        fun used _ _ _ => used ≠ [] := by
    intro delimiters
    refine ((ensures_select some [.anything]).andAlso.bind fun _ => ensures_pure ()).mono ?_
    rintro used rest value errors ⟨front, back, found, early, late, rfl, -, ⟨lexeme, rfl, -⟩, -⟩
    exact List.cons_ne_nil _ _
  refine ((((advances_group ensured pair pairs).orElse (single _)).many ?_).bind
    fun _ => ensures_pure ()).mono fun _ _ _ _ _ => trivial
  rintro used rest value errors (taken | ⟨-, taken⟩) <;> exact taken

theorem ensures_skipGroup (opening closing : τ) (others : List (τ × τ)) :
    (skipGroup opening closing others).Ensures fun used _ span _ =>
      used ≠ [] ∧ span = spanOf used := by
  refine ((((ensures_token opening).between (ensures_token closing)
    (advances_balanced (opening, closing) others)).spanned).bind
    fun (found : Unit × Span) => ensures_pure found.2).mono ?_
  rintro used rest span errors ⟨front, back, found, early, late, rfl, -,
    ⟨⟨front', middle, back', early', errs, late', rfl, -, ⟨lexeme, rfl, -, -⟩, -, -⟩, covered⟩,
    rfl, rfl, -⟩
  refine ⟨by simp, ?_⟩
  simpa using covered (by simp)

/-- A reader that gives a value has read the whole input. -/
theorem Ensures.run (ensured : reader.Ensures post) {lexemes : List (Lexeme τ)} {stop : Nat}
    {value : α} {errors : List (SyntaxError τ)}
    (ran : reader.run lexemes stop = (some value, errors)) : post lexemes [] value errors := by
  unfold Parser.run at ran
  split at ran
  · simp at ran
  · rename_i found after early furthest accepted
    obtain ⟨used, taken, holds⟩ := ensured accepted
    have whole : lexemes = used ++ after.rest := taken.rest
    unfold endOfInput at ran
    cases nothing : after.rest with
    | nil =>
        simp only [nothing, Prod.mk.injEq, Option.some.injEq] at ran
        obtain ⟨rfl, rfl⟩ := ran
        rw [nothing, List.append_nil] at whole
        rwa [whole, ← nothing]
    | cons lexeme rest => simp [nothing] at ran

def Consumes : Post τ α := fun used _ _ _ =>
  used ≠ []

omit [DecidableEq τ] in
theorem advances_of (ensured : reader.Ensures post) : reader.Advances :=
  ensured.mono fun _ _ _ _ _ => trivial

omit [DecidableEq τ] in
theorem orElse_ensures {second : Parser τ α} (left : first.Ensures post)
    (right : second.Ensures post) : (first <|> second).Ensures post := by
  refine (left.orElse right).mono ?_
  rintro used rest value errors (held | ⟨-, held⟩) <;> exact held

omit [DecidableEq τ] in
theorem bind_advances {second : α → Parser τ β} (taken : first.Advances)
    (following : ∀ value, (second value).Advances) : (first >>= second).Advances :=
  advances_of (taken.bind following)

omit [DecidableEq τ] in
theorem bind_consumes {second : α → Parser τ β} (taken : first.Ensures Consumes)
    (following : ∀ value, (second value).Advances) : (first >>= second).Ensures Consumes := by
  refine (taken.bind following).mono ?_
  rintro used rest value errors ⟨front, back, found, early, late, rfl, -, nonempty, -⟩
  exact List.append_ne_nil_of_left_ne_nil nonempty _

theorem select_consumes (accept : τ → Option α) (expected : List (Expected τ)) :
    (select accept expected).Ensures Consumes := by
  refine (ensures_select accept expected).mono ?_
  rintro used rest value errors ⟨lexeme, rfl, -⟩
  exact List.cons_ne_nil _ _

theorem token_consumes (wanted : τ) : (token wanted).Ensures Consumes :=
  select_consumes _ _

theorem between_consumes (opening closing : τ) (inner : reader.Advances) :
    (between (token opening) (token closing) reader).Ensures Consumes := by
  refine ((token_consumes opening).between (token_consumes closing) inner).mono ?_
  rintro used rest value errors ⟨front, middle, back, early, errs, late, rfl, -, nonempty, -⟩
  exact List.append_ne_nil_of_left_ne_nil nonempty _

omit [DecidableEq τ] in
theorem many_advances (taken : reader.Ensures Consumes) : (many reader).Advances :=
  advances_of (taken.many fun _ _ _ _ nonempty => nonempty)

theorem separated1_consumes (mark : τ) (taken : reader.Ensures Consumes) :
    (separated1 reader (token mark)).Ensures Consumes := by
  refine (taken.separated1 (token_consumes mark) fun _ _ _ _ nonempty => nonempty).mono ?_
  rintro used rest value errors ⟨front, back, first, others, early, late, rfl, -, -, nonempty, -⟩
  exact List.append_ne_nil_of_left_ne_nil nonempty _

theorem separated_advances (mark : τ) (taken : reader.Ensures Consumes) :
    (separated reader (token mark)).Advances :=
  advances_of (taken.separated (token_consumes mark) fun _ _ _ _ nonempty => nonempty)

end

end Parser

end QueryLoop.Parsing
