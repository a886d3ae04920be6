import Mathlib.Data.List.Forall2
import QueryLoop.Parsing.Recovery

namespace QueryLoop.Parsing

/-! What two runs over the same tokens have in common.

A reader looks at tokens and counts them, but never looks at their spans.  So from two
cursors with the same tokens in front of them it accepts both times or rejects both
times, behind the same number of tokens and for the same causes.  The values may
differ in spans; `related` says when two values are the same but for those.  There is
one rule for each combinator, and the readers inside may differ as well, because a
grammar rule is a reader only once the readers of its parts are given.
-/

variable {τ α β : Type}

/-- As many lexemes were read, and the same tokens are left. -/
structure Cursor.Alike (cursor cursor' : Cursor τ) : Prop where
  tokens : cursor.rest.map Lexeme.token = cursor'.rest.map Lexeme.token
  index : cursor.index = cursor'.index

/-- The failures differ in their spans only. -/
structure Failure.Alike (failure failure' : Failure τ) : Prop where
  index : failure.index = failure'.index
  found : failure.found = failure'.found
  expected : failure.expected = failure'.expected

/-- The errors differ in their spans only. -/
def SyntaxError.AllAlike (errors errors' : List (SyntaxError τ)) : Prop :=
  errors.map cause = errors'.map cause

inductive Reply.Alike (related : α → α → Prop) : Reply τ α → Reply τ α → Prop
  | accepted {value value' : α} {after after' : Cursor τ} {errors errors' : List (SyntaxError τ)}
      {furthest furthest' : Option (Failure τ)} (values : related value value')
      (cursors : after.Alike after') (causes : SyntaxError.AllAlike errors errors')
      (failures : Option.Rel Failure.Alike furthest furthest') :
      Alike related (.accepted value after errors furthest) (.accepted value' after' errors' furthest')
  | rejected {failure failure' : Failure τ} (failures : failure.Alike failure') :
      Alike related (.rejected failure) (.rejected failure')

/-- From alike cursors the two readers give alike replies. -/
def Parser.Alike (related : α → α → Prop) (reader reader' : Parser τ α) : Prop :=
  ∀ ⦃cursor cursor' : Cursor τ⦄ ⦃furthest furthest' : Option (Failure τ)⦄,
    cursor.Alike cursor' → Option.Rel Failure.Alike furthest furthest' →
      (reader cursor furthest).Alike related (reader' cursor' furthest')

namespace Cursor.Alike

variable {cursor cursor' : Cursor τ}

theorem length_eq (cursors : cursor.Alike cursor') : cursor.rest.length = cursor'.rest.length := by
  simpa using congrArg List.length cursors.tokens

/-- Both cursors are at the end, or both have the same token in front of them. -/
theorem cases (cursors : cursor.Alike cursor') :
    cursor.rest = [] ∧ cursor'.rest = [] ∨
      ∃ lexeme lexeme' rest rest', cursor.rest = lexeme :: rest ∧ cursor'.rest = lexeme' :: rest' ∧
        lexeme.token = lexeme'.token ∧ rest.map Lexeme.token = rest'.map Lexeme.token := by
  have tokens := cursors.tokens
  cases shape : cursor.rest with
  | nil =>
      rw [shape] at tokens
      exact .inl ⟨rfl, List.map_eq_nil_iff.mp tokens.symm⟩
  | cons lexeme rest =>
      rw [shape, List.map_cons] at tokens
      obtain ⟨lexeme', rest', shape', token, others⟩ := List.map_eq_cons_iff.mp tokens.symm
      exact .inr ⟨lexeme, lexeme', rest, rest', rfl, shape', token.symm, others.symm⟩

theorem refusal (cursors : cursor.Alike cursor') (expected : List (Expected τ)) :
    (cursor.refusal expected).Alike (cursor'.refusal expected) := by
  unfold Cursor.refusal
  rcases cursors.cases with ⟨done, done'⟩ | ⟨lexeme, lexeme', rest, rest', shape, shape', token, -⟩
  · rw [done, done']
    exact ⟨cursors.index, rfl, rfl⟩
  · rw [shape, shape']
    exact ⟨cursors.index, congrArg some token, rfl⟩

theorem start {lexemes lexemes' : List (Lexeme τ)}
    (tokens : lexemes.map Lexeme.token = lexemes'.map Lexeme.token) (stop stop' : Nat) :
    (Cursor.start lexemes stop).Alike (Cursor.start lexemes' stop') :=
  ⟨tokens, rfl⟩

end Cursor.Alike

namespace Failure.Alike

variable {failure failure' : Failure τ}

theorem relabel [DecidableEq τ] (failures : failure.Alike failure') (index : Nat)
    (label : String) : (failure.relabel index label).Alike (failure'.relabel index label) := by
  simp only [Failure.relabel, failures.index]
  split
  · exact ⟨rfl, failures.found, rfl⟩
  · exact failures

/-- Two ways of remembering one of two failures, or both if they are at the same place. -/
theorem note [DecidableEq τ] {old old' : Option (Failure τ)} (olds : Option.Rel Failure.Alike old old')
    (news : failure.Alike failure') : (Failure.note old failure).Alike (Failure.note old' failure') := by
  cases olds with
  | none => exact news
  | some olds =>
      simp only [Failure.note, olds.index, news.index]
      split
      · exact news
      split
      · exact olds
      · exact ⟨rfl, by rw [olds.found, news.found], by rw [olds.expected, news.expected]⟩

theorem merge [DecidableEq τ] {old old' : Option (Failure τ)} (olds : Option.Rel Failure.Alike old old')
    (news : failure.Alike failure') : (Failure.merge old failure).Alike (Failure.merge old' failure') := by
  cases olds with
  | none => exact news
  | some olds =>
      simp only [Failure.merge, olds.index, news.index, olds.expected, news.expected]
      split
      · exact news
      split
      · exact olds
      split
      · exact ⟨rfl, olds.found, rfl⟩
      · exact ⟨rfl, olds.found, rfl⟩

theorem toError (failures : failure.Alike failure') :
    SyntaxError.AllAlike [failure.toError] [failure'.toError] := by
  simp [SyntaxError.AllAlike, Failure.toError, failures.found, failures.expected]

end Failure.Alike

theorem SyntaxError.AllAlike.append {errors errors' more more' : List (SyntaxError τ)}
    (causes : AllAlike errors errors') (others : AllAlike more more') :
    AllAlike (errors ++ more) (errors' ++ more') := by
  simp only [AllAlike, List.map_append] at *
  rw [causes, others]

namespace Parser

variable {related : α → α → Prop} {related' : β → β → Prop} {reader reader' : Parser τ α}
  {second second' : Parser τ β}

theorem alike_pure {value value' : α} (values : related value value') :
    (pure value : Parser τ α).Alike related (pure value') :=
  fun _ _ _ _ cursors failures => .accepted values cursors rfl failures

theorem Alike.bind {next next' : α → Parser τ β} (runs : reader.Alike related reader')
    (following : ∀ value value', related value value' →
      (next value).Alike related' (next' value')) :
    (reader >>= next).Alike related' (reader' >>= next') := by
  intro cursor cursor' furthest furthest' cursors failures
  change (Parser.bind reader next cursor furthest).Alike related'
    (Parser.bind reader' next' cursor' furthest')
  unfold Parser.bind
  have replies := runs cursors failures
  generalize reader cursor furthest = reply, reader' cursor' furthest' = reply' at replies ⊢
  cases replies with
  | rejected failures => exact .rejected failures
  | accepted values cursors causes failures =>
      dsimp only
      have replies := following _ _ values cursors failures
      generalize next _ _ _ = reply, next' _ _ _ = reply' at replies ⊢
      cases replies with
      | rejected failures => exact .rejected failures
      | accepted values cursors others failures =>
          exact .accepted values cursors (causes.append others) failures

theorem Alike.orElse {more more' : Parser τ α} (runs : reader.Alike related reader')
    (others : more.Alike related more') :
    (reader <|> more).Alike related (reader' <|> more') := by
  intro cursor cursor' furthest furthest' cursors failures
  change (Parser.orElse reader (fun _ => more) cursor furthest).Alike related
    (Parser.orElse reader' (fun _ => more') cursor' furthest')
  unfold Parser.orElse
  have replies := runs cursors failures
  generalize reader cursor furthest = reply, reader' cursor' furthest' = reply' at replies ⊢
  cases replies with
  | rejected failures => exact others cursors (.some failures)
  | accepted values cursors causes failures => exact .accepted values cursors causes failures

theorem Alike.optional (runs : reader.Alike related reader') :
    (Parser.optional reader).Alike (Option.Rel related) (Parser.optional reader') := by
  intro cursor cursor' furthest furthest' cursors failures
  unfold Parser.optional
  have replies := runs cursors failures
  generalize reader cursor furthest = reply, reader' cursor' furthest' = reply' at replies ⊢
  cases replies with
  | rejected failures => exact .accepted .none cursors rfl (.some failures)
  | accepted values cursors causes failures =>
      exact .accepted (.some values) cursors causes failures

/-- Both parts of the values are related. -/
def InBoth (related : α → α → Prop) (related' : β → β → Prop) (value value' : α × β) : Prop :=
  related value.1 value'.1 ∧ related' value.2 value'.2

theorem InBoth.mk {value value' : α} {value₂ value₂' : β} (firsts : related value value')
    (seconds : related' value₂ value₂') : InBoth related related' (value, value₂) (value', value₂') :=
  ⟨firsts, seconds⟩

/-- The values are related, wherever they were read. -/
def BesideSpan (related : α → α → Prop) (value value' : α × Span) : Prop :=
  related value.1 value'.1

theorem Alike.spanned (runs : reader.Alike related reader') :
    (spanned reader).Alike (BesideSpan related) (spanned reader') := by
  intro cursor cursor' furthest furthest' cursors failures
  unfold Parser.spanned
  have replies := runs cursors failures
  generalize reader cursor furthest = reply, reader' cursor' furthest' = reply' at replies ⊢
  cases replies with
  | rejected failures => exact .rejected failures
  | accepted values cursors causes failures => exact .accepted values cursors causes failures

theorem alike_report (span span' : Span) (cause : Cause τ) :
    (report span cause).Alike Eq (report span' cause) :=
  fun _ _ _ _ cursors failures => .accepted rfl cursors rfl failures

theorem Alike.ahead (runs : reader.Alike related reader') :
    (ahead reader).Alike Eq (ahead reader') := by
  intro cursor cursor' furthest furthest' cursors failures
  unfold Parser.ahead
  have replies := runs cursors failures
  generalize reader cursor furthest = reply, reader' cursor' furthest' = reply' at replies ⊢
  cases replies with
  | rejected failures => exact .rejected failures
  | accepted values after causes failures => exact .accepted rfl cursors rfl failures

theorem Alike.andAlso (runs : reader.Alike related reader') (also : second.Alike related' second') :
    (andAlso reader second).Alike related (andAlso reader' second') := by
  intro cursor cursor' furthest furthest' cursors failures
  unfold Parser.andAlso
  have replies := runs cursors failures
  generalize reader cursor furthest = reply, reader' cursor' furthest' = reply' at replies ⊢
  cases replies with
  | rejected failures => exact .rejected failures
  | accepted values after causes failures =>
      dsimp only
      have replies := also cursors failures
      generalize second cursor _ = reply, second' cursor' _ = reply' at replies ⊢
      cases replies with
      | rejected failures => exact .rejected failures
      | accepted _ _ _ failures => exact .accepted values after causes failures

theorem Alike.between {opening opening' closing closing' : Parser τ Unit}
    (opens : opening.Alike Eq opening') (closes : closing.Alike Eq closing')
    (runs : reader.Alike related reader') :
    (between opening closing reader).Alike related (between opening' closing' reader') :=
  opens.bind fun _ _ _ => runs.bind fun _ _ values => closes.bind fun _ _ _ => alike_pure values

theorem Alike.manyWithin (runs : reader.Alike related reader') {budget budget' : List (Lexeme τ)}
    (budgets : budget.length = budget'.length) :
    Parser.Alike (List.Forall₂ related) (manyWithin reader budget) (manyWithin reader' budget') := by
  induction budget generalizing budget' with
  | nil =>
      obtain rfl := List.length_eq_zero_iff.mp budgets.symm
      intro cursor cursor' furthest furthest' cursors failures
      unfold Parser.manyWithin
      have replies := runs cursors failures
      generalize reader cursor furthest = reply, reader' cursor' furthest' = reply' at replies ⊢
      cases replies with
      | rejected failures => exact .accepted .nil cursors rfl (.some failures)
      | accepted values cursors causes failures =>
          exact .accepted (.cons values .nil) cursors causes failures
  | cons spare budget ih =>
      obtain ⟨spare', budget', rfl⟩ := List.exists_cons_of_length_eq_add_one budgets.symm
      intro cursor cursor' furthest furthest' cursors failures
      unfold Parser.manyWithin
      have replies := runs cursors failures
      generalize reader cursor furthest = reply, reader' cursor' furthest' = reply' at replies ⊢
      cases replies with
      | rejected failures => exact .accepted .nil cursors rfl (.some failures)
      | accepted values cursors causes failures =>
          dsimp only
          have replies := ih (Nat.succ.inj budgets) cursors failures
          generalize Parser.manyWithin reader budget _ _ = reply,
            Parser.manyWithin reader' budget' _ _ = reply' at replies ⊢
          cases replies with
          | rejected failures => exact .rejected failures
          | accepted others cursors more failures =>
              exact .accepted (.cons values others) cursors (causes.append more) failures

theorem Alike.many (runs : reader.Alike related reader') :
    (many reader).Alike (List.Forall₂ related) (many reader') :=
  fun _ _ _ _ cursors failures => runs.manyWithin cursors.length_eq cursors failures

theorem Alike.many1 (runs : reader.Alike related reader') :
    (many1 reader).Alike (List.Forall₂ related) (many1 reader') :=
  runs.bind fun _ _ first => runs.many.bind fun _ _ others => alike_pure (.cons first others)

theorem Alike.separated1 {separator separator' : Parser τ Unit} (runs : reader.Alike related reader')
    (separates : separator.Alike Eq separator') :
    (separated1 reader separator).Alike (List.Forall₂ related) (separated1 reader' separator') :=
  runs.bind fun _ _ first => (separates.bind fun _ _ _ => runs).many.bind fun _ _ others =>
    alike_pure (.cons first others)

theorem Alike.separated {separator separator' : Parser τ Unit} (runs : reader.Alike related reader')
    (separates : separator.Alike Eq separator') :
    (separated reader separator).Alike (List.Forall₂ related) (separated reader' separator') :=
  (runs.separated1 separates).orElse (alike_pure .nil)

/-- Unrollings of a rule are alike if they are unrolled equally often. -/
theorem alike_unrolled {rule rule' : Parser τ α → Parser τ α}
    (step : ∀ inner inner', inner.Alike related inner' → (rule inner).Alike related (rule' inner'))
    {budget budget' : List (Lexeme τ)} (budgets : budget.length = budget'.length) :
    Parser.Alike related (unrolled rule budget) (unrolled rule' budget') := by
  induction budget generalizing budget' with
  | nil =>
      obtain rfl := List.length_eq_zero_iff.mp budgets.symm
      exact step _ _ fun _ _ _ _ cursors _ => .rejected (cursors.refusal [])
  | cons spare budget ih =>
      obtain ⟨spare', budget', rfl⟩ := List.exists_cons_of_length_eq_add_one budgets.symm
      exact step _ _ (ih (Nat.succ.inj budgets))

theorem alike_recursive {rule rule' : Parser τ α → Parser τ α}
    (step : ∀ inner inner', inner.Alike related inner' → (rule inner).Alike related (rule' inner')) :
    (recursive rule).Alike related (recursive rule') :=
  fun _ _ _ _ cursors failures => alike_unrolled step cursors.length_eq cursors failures

section
variable [DecidableEq τ]

theorem alike_select (accept : τ → Option α) (expected : List (Expected τ)) :
    (select accept expected).Alike Eq (select accept expected) := by
  intro cursor cursor' furthest furthest' cursors failures
  have refused := Failure.Alike.note failures (cursors.refusal expected)
  rcases cursors.cases with ⟨done, done'⟩ | ⟨lexeme, lexeme', rest, rest', shape, shape', token, tokens⟩
  · simp only [select, Cursor.next?, done, done']
    exact .rejected refused
  · simp only [select, Cursor.next?, shape, shape', token]
    cases accept lexeme'.token with
    | none => exact .rejected refused
    | some value => exact .accepted rfl ⟨tokens, congrArg (· + 1) cursors.index⟩ rfl failures

theorem alike_token (wanted : τ) : (token wanted).Alike Eq (token wanted) :=
  alike_select _ _

theorem alike_noneOf (refused : List τ) : (noneOf refused).Alike Eq (noneOf refused) :=
  alike_select _ _

theorem alike_endOfInput : (endOfInput (τ := τ)).Alike Eq endOfInput := by
  intro cursor cursor' furthest furthest' cursors failures
  have refused := Failure.Alike.note failures (cursors.refusal [.endOfInput])
  rcases cursors.cases with ⟨done, done'⟩ | ⟨lexeme, lexeme', rest, rest', shape, shape', -, -⟩
  · simp only [endOfInput, done, done']
    exact .accepted rfl cursors rfl failures
  · simp only [endOfInput, shape, shape']
    exact .rejected refused

theorem Alike.labelled (label : String) (runs : reader.Alike related reader') :
    (labelled label reader).Alike related (labelled label reader') := by
  intro cursor cursor' furthest furthest' cursors failures
  unfold Parser.labelled
  rw [cursors.index]
  have replies := runs cursors .none
  generalize reader cursor none = reply, reader' cursor' none = reply' at replies ⊢
  cases replies with
  | rejected own => exact .rejected (.merge failures (own.relabel _ label))
  | accepted values cursors causes own =>
      refine .accepted values cursors causes ?_
      cases own with
      | none => exact failures
      | some own => exact .some (.merge failures (own.relabel _ label))

end

theorem Alike.recoverWith {instead instead' : Parser τ α} (replaces : instead.Alike related instead')
    (runs : reader.Alike related reader') :
    (recoverWith instead reader).Alike related (recoverWith instead' reader') := by
  intro cursor cursor' furthest furthest' cursors failures
  unfold Parser.recoverWith
  have replies := runs cursors failures
  generalize reader cursor furthest = reply, reader' cursor' furthest' = reply' at replies ⊢
  cases replies with
  | accepted values cursors causes failures => exact .accepted values cursors causes failures
  | rejected own =>
      dsimp only
      have replies := replaces cursors .none
      generalize instead cursor none = reply, instead' cursor' none = reply' at replies ⊢
      cases replies with
      | rejected _ => exact .rejected own
      | accepted values cursors causes failures =>
          exact .accepted values cursors (causes.append own.toError) failures

theorem Alike.retryAfter (runs : reader.Alike related reader') {failure failure' : Failure τ}
    (own : failure.Alike failure') (stop stop' : Nat) {rest rest' : List (Lexeme τ)}
    (tokens : rest.map Lexeme.token = rest'.map Lexeme.token) (index : Nat) :
    (retryAfter reader failure stop rest index).Alike related
      (retryAfter reader' failure' stop' rest' index) := by
  induction rest generalizing rest' index with
  | nil =>
      obtain rfl := List.map_eq_nil_iff.mp tokens.symm
      exact .rejected own
  | cons dropped rest ih =>
      obtain ⟨dropped', rest', rfl, token, others⟩ := List.map_eq_cons_iff.mp tokens.symm
      unfold Parser.retryAfter
      have cursors : Cursor.Alike ⟨rest, index + 1, dropped.span.stop, stop⟩
          ⟨rest', index + 1, dropped'.span.stop, stop'⟩ := ⟨others.symm, rfl⟩
      have beforeEnd : Failure.Alike ⟨index, dropped.span, some dropped.token, [.endOfInput]⟩
          ⟨index, dropped'.span, some dropped'.token, [.endOfInput]⟩ := ⟨rfl, by rw [token], rfl⟩
      have again := ih others.symm (index + 1)
      have replies := runs cursors (.some beforeEnd)
      dsimp only
      generalize reader _ _ = reply, reader' _ _ = reply' at replies ⊢
      cases replies with
      | rejected _ => exact again
      | @accepted value value' after after' errors errors' furthest furthest' values cursors causes
          failures =>
          -- an error of its own means the same on both sides: the next lexeme is dropped
          cases errors with
          | nil =>
              obtain rfl := List.map_eq_nil_iff.mp (Eq.symm causes)
              exact .accepted values cursors own.toError failures
          | cons error errors =>
              obtain ⟨error', errors', rfl, -, -⟩ := List.map_eq_cons_iff.mp (Eq.symm causes)
              exact again

theorem Alike.skipAndRetry (runs : reader.Alike related reader') :
    (skipAndRetry reader).Alike related (skipAndRetry reader') := by
  intro cursor cursor' furthest furthest' cursors failures
  unfold Parser.skipAndRetry
  have replies := runs cursors failures
  generalize reader cursor furthest = reply, reader' cursor' furthest' = reply' at replies ⊢
  cases replies with
  | accepted values cursors causes failures => exact .accepted values cursors causes failures
  | rejected own =>
      dsimp only
      rw [cursors.index]
      exact runs.retryAfter own _ _ cursors.tokens _

section
variable [DecidableEq τ]

theorem alike_group {content content' : Parser τ Unit} (inner : content.Alike Eq content')
    (pair : τ × τ) (pairs : List (τ × τ)) :
    (group content pair pairs).Alike Eq (group content' pair pairs) := by
  induction pairs generalizing pair with
  | nil => exact (alike_token _).between (alike_token _) inner
  | cons next pairs ih =>
      exact ((alike_token _).between (alike_token _) inner).orElse (ih next)

theorem alike_balanced (pair : τ × τ) (pairs : List (τ × τ)) :
    (balanced pair pairs).Alike Eq (balanced pair pairs) := by
  refine alike_recursive fun inner inner' content => ?_
  have single (delimiters : List τ) :=
    ((alike_select some [.anything]).andAlso (alike_noneOf delimiters)).bind
      fun _ _ _ => alike_pure (rfl : () = ())
  exact ((alike_group content pair pairs).orElse (single _)).many.bind fun _ _ _ => alike_pure rfl

theorem alike_skipGroup (opening closing : τ) (others : List (τ × τ)) :
    (skipGroup opening closing others).Alike (fun _ _ => True) (skipGroup opening closing others) :=
  ((alike_token opening).between (alike_token closing) (alike_balanced _ _)).spanned.bind
    fun _ _ _ => alike_pure trivial

/-- Whole inputs with the same tokens give related values, or none both times, and
alike errors. -/
theorem Alike.run (runs : reader.Alike related reader') {lexemes lexemes' : List (Lexeme τ)}
    (tokens : lexemes.map Lexeme.token = lexemes'.map Lexeme.token) (stop stop' : Nat) :
    Option.Rel related (reader.run lexemes stop).1 (reader'.run lexemes' stop').1 ∧
      SyntaxError.AllAlike (reader.run lexemes stop).2 (reader'.run lexemes' stop').2 := by
  unfold Parser.run
  have replies := runs (.start tokens stop stop') .none
  generalize reader _ _ = reply, reader' _ _ = reply' at replies ⊢
  cases replies with
  | rejected own => exact ⟨.none, own.toError⟩
  | @accepted value value' after after' errors errors' furthest furthest' values cursors causes
      failures =>
      dsimp only
      have replies := alike_endOfInput cursors failures
      generalize endOfInput after furthest = reply, endOfInput after' furthest' = reply'
        at replies ⊢
      cases replies with
      | rejected own => exact ⟨.none, causes.append own.toError⟩
      | accepted _ _ _ _ => exact ⟨.some values, causes⟩

end

end Parser

end QueryLoop.Parsing
