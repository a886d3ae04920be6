import QueryLoop.Proofs.Fixing.Local
import QueryLoop.Proofs.Printing.Formatted
import QueryLoop.Proofs.Printing.Usable
import QueryLoop.Proofs.Spelling.Canonical

namespace QueryLoop

open Token

/-- The statement fits, and all its tokens are usable. -/
structure Stmt.Writable (stmt : Stmt) : Prop where
  fits : stmt.Fits
  usable : ∀ token ∈ stmt.tokens, token.Usable

namespace Stmt

variable {old new before after : Stmt}

theorem writable_block_iff {span : Span} {stmts : List Stmt} :
    (block span stmts).Writable ↔ ∀ stmt ∈ stmts, stmt.Writable := by
  constructor
  · rintro ⟨fits, usable⟩ stmt listed
    refine ⟨allFit_iff.mp fits stmt listed, fun token inside => usable token ?_⟩
    rw [tokens, allTokens_eq]
    exact List.mem_cons_of_mem _ (List.mem_append_left _
      (List.mem_flatMap.mpr ⟨stmt, listed, inside⟩))
  · intro each
    refine ⟨allFit_iff.mpr fun stmt listed => (each stmt listed).fits, ?_⟩
    rw [tokens, allTokens_eq, List.forall_mem_cons, List.forall_mem_append, List.forall_mem_flatMap]
    refine ⟨usable_mark (by decide), fun stmt listed => (each stmt listed).usable, ?_⟩
    simpa using (usable_mark (by decide) : Token.braceClose.Usable)

theorem writable_foreach_iff {span varSpan : Span} {type : TypeRef} {var : String} {seq : Expr}
    {body : Stmt} : (foreach span type var varSpan seq body).Writable ↔
      (type.Named ∧ (∀ token ∈ type.tokens, token.Usable) ∧ (Token.ident var).Usable) ∧
        (seq.Fits [.parenClose] ∧ seq.Usable) ∧ body.Writable := by
  constructor
  · rintro ⟨⟨named, seqFits, bodyFits⟩, usable⟩
    simp only [tokens, List.forall_mem_cons, List.forall_mem_append] at usable
    obtain ⟨-, -, inType, isVar, -, inSeq, -, inBody⟩ := usable
    exact ⟨⟨named, inType, isVar⟩, ⟨seqFits, inSeq⟩, bodyFits, inBody⟩
  · rintro ⟨⟨named, inType, isVar⟩, ⟨seqFits, inSeq⟩, bodyFits, inBody⟩
    refine ⟨⟨named, seqFits, bodyFits⟩, ?_⟩
    simp only [tokens, List.forall_mem_cons, List.forall_mem_append]
    exact ⟨usable_keyword _, usable_mark (by decide), inType, isVar, usable_keyword _, inSeq,
      usable_mark (by decide), inBody⟩

theorem Writable.branches {stmt body : Stmt} {cond : Expr} {otherwise : Option Stmt}
    (writable : stmt.Writable) (parts : stmt.branches? = some (cond, body, otherwise)) :
    (cond.Fits [.parenClose] ∧ cond.Usable) ∧ body.Writable ∧ ∀ stmt ∈ otherwise, stmt.Writable := by
  obtain ⟨fits, usable⟩ := writable
  unfold branches? at parts
  split at parts
  · cases parts
    simp only [tokens, List.forall_mem_cons, List.forall_mem_append] at usable
    obtain ⟨-, -, inCond, -, inBody⟩ := usable
    exact ⟨⟨fits.1, inCond⟩, ⟨fits.2, inBody⟩, by simp⟩
  · cases parts
    simp only [tokens, List.forall_mem_cons, List.forall_mem_append] at usable
    obtain ⟨-, -, inCond, -, inBody, -, inElse⟩ := usable
    exact ⟨⟨fits.1, inCond⟩, ⟨fits.2.1, inBody⟩, by simpa using ⟨fits.2.2, inElse⟩⟩
  · simp at parts

theorem Writable.loneIf {stmt body : Stmt} {cond : Expr} (writable : stmt.Writable)
    (lone : stmt.loneIf? = some (cond, body)) :
    (cond.Fits [.parenClose] ∧ cond.Usable) ∧ body.Writable := by
  unfold loneIf? at lone
  split at lone
  · cases lone
    obtain ⟨ofCond, ofBody, -⟩ := (writable.branches rfl : _ ∧ _ ∧ ∀ stmt ∈ none, _)
    exact ⟨ofCond, ofBody⟩
  · cases lone
    have only := writable_block_iff.mp writable _ List.mem_cons_self
    obtain ⟨ofCond, ofBody, -⟩ := (only.branches rfl : _ ∧ _ ∧ ∀ stmt ∈ none, _)
    exact ⟨ofCond, ofBody⟩
  · simp at lone

theorem Writable.flattened {otherwise : Option Stmt}
    (writable : ∀ stmt ∈ otherwise, stmt.Writable) :
    ∀ stmt ∈ Stmt.flattened otherwise, stmt.Writable := by
  unfold Stmt.flattened
  split
  · simp
  · exact writable_block_iff.mp (writable _ rfl)
  · simpa using writable

theorem isEmptyDecl_of_fits {stmt : Stmt} (fits : stmt.Fits) : stmt.isEmptyDecl = false := by
  unfold isEmptyDecl
  split
  · exact absurd rfl fits.2.1
  · rfl

theorem removeEmptyDecls_of_fits {stmt : Stmt} (fits : stmt.Fits) :
    stmt.removeEmptyDecls.1 = stmt := by
  refine removeEmptyDecls_eq_self ?_
  induction stmt using children_induction with
  | step stmt ih =>
      rw [statements_eq, List.forall_mem_cons, List.forall_mem_flatMap]
      exact ⟨isEmptyDecl_of_fits fits, fun child isChild =>
        ih child isChild (fits.children child isChild)⟩

/-- A declaration left without declarators is dropped. -/
theorem removeEmptyDecls_block_cons {span declSpan : Span} {type : TypeRef} {rest : List Stmt}
    (fits : (block span rest).Fits) :
    (block span (decl declSpan ⟨type, []⟩ :: rest)).removeEmptyDecls.1 = block span rest := by
  have same := removeEmptyDecls_of_fits fits
  simpa [removeEmptyDecls, dropEmptyDecls, isEmptyDecl] using same

/-- What an exchange leaves alone is written as before. -/
theorem Exchanged.tokens_eq (exchanged : Exchanged old new before after) :
    PartExchanged old.tokens new.tokens before.tokens after.tokens := by
  induction exchanged with
  | here => exact .refl _ _
  | inBlock span front back inner ih =>
      rw [tokens, tokens, allTokens_eq, allTokens_eq]
      exact ((ih.flatMap_among tokens front back).inFrontOf [.braceClose]).behind [.braceOpen]
  | inIfThen span cond inner ih =>
      rw [tokens, tokens]
      exact ((ih.behind [.parenClose]).behind cond.tokens).behind [.keyword .ifWord, .parenOpen]
  | inBody span cond otherwise inner ih =>
      rw [tokens, tokens]
      exact (((ih.inFrontOf (.keyword .elseWord :: otherwise.tokens)).behind [.parenClose]).behind
        cond.tokens).behind [.keyword .ifWord, .parenOpen]
  | inOtherwise span cond body inner ih =>
      rw [tokens, tokens]
      exact ((((ih.behind [.keyword .elseWord]).behind body.tokens).behind [.parenClose]).behind
        cond.tokens).behind [.keyword .ifWord, .parenOpen]
  | inForeach span type var varSpan seq inner ih =>
      rw [tokens, tokens]
      exact ((((ih.behind [.parenClose]).behind seq.tokens).behind [.ident var, .keyword .inWord]).behind
        type.tokens).behind [.keyword .foreachWord, .parenOpen]
  | inWhile span cond inner ih =>
      rw [tokens, tokens]
      exact ((ih.behind [.parenClose]).behind cond.tokens).behind [.keyword .whileWord, .parenOpen]

/-- An exchange in a statement that fits is made for a statement that fits, and keeps it
fitting if the new one does. -/
theorem Exchanged.fits (exchanged : Exchanged old new before after) (fits : before.Fits) :
    old.Fits ∧ (new.Fits → after.Fits) := by
  induction exchanged with
  | here => exact ⟨fits, id⟩
  | inBlock span front back inner ih =>
      obtain ⟨ahead, own, behind⟩ :=
        (List.forall_mem_append.trans (and_congr_right' List.forall_mem_cons)).mp
          (allFit_iff.mp fits)
      refine ⟨(ih own).1, fun newFits => allFit_iff.mpr (List.forall_mem_append.mpr ⟨ahead, ?_⟩)⟩
      exact List.forall_mem_cons.mpr ⟨(ih own).2 newFits, behind⟩
  | inIfThen span cond inner ih => exact ⟨(ih fits.2).1, fun newFits => ⟨fits.1, (ih fits.2).2 newFits⟩⟩
  | inBody span cond otherwise inner ih =>
      exact ⟨(ih fits.2.1).1, fun newFits => ⟨fits.1, (ih fits.2.1).2 newFits, fits.2.2⟩⟩
  | inOtherwise span cond body inner ih =>
      exact ⟨(ih fits.2.2).1, fun newFits => ⟨fits.1, fits.2.1, (ih fits.2.2).2 newFits⟩⟩
  | inForeach span type var varSpan seq inner ih =>
      exact ⟨(ih fits.2.2).1, fun newFits => ⟨fits.1, fits.2.1, (ih fits.2.2).2 newFits⟩⟩
  | inWhile span cond inner ih =>
      exact ⟨(ih fits.2).1, fun newFits => ⟨fits.1, (ih fits.2).2 newFits⟩⟩

end Stmt

namespace Item

variable {old new : Stmt} {before after : Item}

theorem Exchanged.tokens_eq (exchanged : Exchanged old new before after) :
    PartExchanged old.tokens new.tokens before.tokens after.tokens := by
  induction exchanged with
  | inNamespace span path front back inner ih =>
      rw [tokens, tokens, allTokens_eq, allTokens_eq]
      exact ((((ih.flatMap_among tokens front back).inFrontOf [.braceClose]).behind
        [.braceOpen]).behind (pathTokens path)).behind [.keyword .namespaceWord]
  | inClass span modifiers name front back inner ih =>
      rw [tokens, tokens, allTokens_eq, allTokens_eq]
      exact (((ih.flatMap_among tokens front back).inFrontOf [.braceClose]).behind
        [.keyword .classWord, .ident name, .braceOpen]).behind (modifiers.map .modifier)
  | inMethod span modifiers result name params front back braces inner =>
      rw [tokens, tokens, Stmt.allTokens_eq, Stmt.allTokens_eq]
      have inBody := (inner.tokens_eq.flatMap_among Stmt.tokens front back).inFrontOf [.braceClose]
      exact ((((inBody.behind [.parenClose, .braceOpen]).behind
        (Token.listed .comma Param.tokens params)).behind [.ident name, .parenOpen]).behind
          result.tokens).behind (modifiers.map .modifier)
  | inStatement span inner => exact inner.tokens_eq

theorem Exchanged.fits (exchanged : Exchanged old new before after) (fits : before.Fits) :
    old.Fits ∧ (new.Fits → after.Fits) := by
  induction exchanged with
  | inNamespace span path front back inner ih =>
      obtain ⟨ahead, own, behind⟩ :=
        (List.forall_mem_append.trans (and_congr_right' List.forall_mem_cons)).mp
          (allFit_iff.mp fits.2)
      refine ⟨(ih own).1, fun newFits => ⟨fits.1, allFit_iff.mpr
        (List.forall_mem_append.mpr ⟨ahead, List.forall_mem_cons.mpr ⟨(ih own).2 newFits, behind⟩⟩)⟩⟩
  | inClass span modifiers name front back inner ih =>
      obtain ⟨ahead, own, behind⟩ :=
        (List.forall_mem_append.trans (and_congr_right' List.forall_mem_cons)).mp
          (allFit_iff.mp fits)
      refine ⟨(ih own).1, fun newFits => allFit_iff.mpr
        (List.forall_mem_append.mpr ⟨ahead, List.forall_mem_cons.mpr ⟨(ih own).2 newFits, behind⟩⟩)⟩
  | inMethod span modifiers result name params front back braces inner =>
      obtain ⟨ahead, own, behind⟩ :=
        (List.forall_mem_append.trans (and_congr_right' List.forall_mem_cons)).mp
          (Stmt.allFit_iff.mp fits.2.2)
      obtain ⟨oldFits, kept⟩ := inner.fits own
      refine ⟨oldFits, fun newFits => ⟨fits.1, fits.2.1, Stmt.allFit_iff.mpr
        (List.forall_mem_append.mpr ⟨ahead, List.forall_mem_cons.mpr ⟨kept newFits, behind⟩⟩)⟩⟩
  | inStatement span inner => exact inner.fits fits

end Item

namespace SourceTree

variable {old new : Stmt} {before after : SourceTree}

/-- The tree fits, and all its tokens are usable. -/
structure Writable (tree : SourceTree) : Prop where
  fits : tree.Fits
  usable : ∀ token ∈ tree.tokens, token.Usable

/-- Exchanging one writable statement for another keeps a tree writable. -/
theorem Exchanged.writable (exchanged : Exchanged old new before after)
    (writable : before.Writable) : old.Writable ∧ (new.Writable → after.Writable) := by
  obtain ⟨fits, usable⟩ := writable
  cases exchanged with
  | @intro item item' front back inner =>
      obtain ⟨ahead, own, behind⟩ :=
        (List.forall_mem_append.trans (and_congr_right' List.forall_mem_cons)).mp
          (Item.allFit_iff.mp fits)
      obtain ⟨oldFits, kept⟩ := inner.fits own
      obtain ⟨left, right, before_eq, after_eq⟩ := inner.tokens_eq
      simp only [tokens, Item.allTokens_eq, List.flatMap_append, List.flatMap_cons, before_eq,
        List.forall_mem_append] at usable
      obtain ⟨inFront, ⟨⟨inLeft, inOld⟩, inRight⟩, inBack⟩ := usable
      refine ⟨⟨oldFits, inOld⟩, fun new => ⟨Item.allFit_iff.mpr (List.forall_mem_append.mpr
        ⟨ahead, List.forall_mem_cons.mpr ⟨kept new.fits, behind⟩⟩), ?_⟩⟩
      simp only [tokens, Item.allTokens_eq, List.flatMap_append, List.flatMap_cons, after_eq,
        List.forall_mem_append]
      exact ⟨inFront, ⟨⟨inLeft, new.usable⟩, inRight⟩, inBack⟩

end SourceTree

namespace Loop

variable {options : ScanOptions} {loop planned : Loop} {shape : Shape}

theorem proper_method : (Token.ident "Where").Proper ∧ (Token.ident "Select").Proper := by
  have where_name : "Where".toList = 'W' :: ['h', 'e', 'r', 'e'] := rfl
  have select_name : "Select".toList = 'S' :: ['e', 'l', 'e', 'c', 't'] := rfl
  exact ⟨proper_ident where_name (by decide) (List.all_iff_forall_prop.mp (by decide)) (by decide),
    proper_ident select_name (by decide) (List.all_iff_forall_prop.mp (by decide)) (by decide)⟩

/-- The sequence of a loop with a pipeline behind it. -/
theorem writable_pipeline {seq expr lambda : Expr} {method var preferred : String} {negate : Bool}
    {rest : List Token} (made : Resolver.textual.lambda? expr var preferred negate = some lambda)
    (ofSeq : seq.Fits [.parenClose] ∧ seq.Usable) (ofExpr : expr.Fits rest ∧ expr.Usable)
    (stops : Stops 0 rest) (isMethod : (Token.ident method).Proper)
    (proper : (Token.ident preferred).Proper) :
    (seq.memberCall method [lambda]).Fits [.parenClose] ∧
      (seq.memberCall method [lambda]).Usable := by
  have lambdaUsable := Resolver.usable_lambda? made ofExpr.2 proper
  exact ⟨Expr.memberCall_fits method ofSeq.1 (Resolver.lambda?_fits made ofExpr.1 stops),
    Expr.usable_memberCall ofSeq.2 isMethod (by simpa using lambdaUsable)⟩

/-- The first declarator and what is left of the declaration. -/
theorem writable_decl {span : Span} {type : TypeRef} {name : String} {init : Expr} {nameSpan : Span}
    {others : List Declarator}
    (writable : (Stmt.decl span ⟨type, ⟨name, some init, nameSpan⟩ :: others⟩).Writable) :
    (type.Named ∧ (∀ token ∈ type.tokens, token.Usable) ∧ (Token.ident name).Usable) ∧
      (∃ rest, (init.Fits rest ∧ init.Usable) ∧ Stops 0 rest) ∧
      (others ≠ [] → (Stmt.decl span ⟨type, others⟩).Writable) := by
  obtain ⟨⟨named, -, initFits, fit⟩, usable⟩ := writable
  simp only [Stmt.tokens, LocalDecl.tokens, Token.listed, Declarator.tokens, List.forall_mem_append,
    List.forall_mem_cons] at usable
  obtain ⟨inType, ⟨⟨isName, -, inInit⟩, inOthers⟩, semicolon, -⟩ := usable
  refine ⟨⟨named, inType, isName⟩, ⟨_, ⟨initFits init rfl, inInit⟩, ?_⟩, fun nonempty => ?_⟩
  · cases others with
    | nil => exact stops_cons.mpr (Nat.le_refl 0)
    | cons next others => exact stops_cons.mpr (Nat.le_refl 0)
  · obtain ⟨next, others, rfl⟩ := List.exists_cons_of_ne_nil nonempty
    refine ⟨⟨named, nonempty, fit⟩, ?_⟩
    simp only [List.flatMap_cons, List.forall_mem_append, List.forall_mem_cons] at inOthers
    simp only [Stmt.tokens, LocalDecl.tokens, Token.listed, List.forall_mem_append,
      List.forall_mem_cons]
    exact ⟨inType, ⟨inOthers.1.2, inOthers.2⟩, semicolon, by simp⟩

/-- A fix keeps a loop writable. -/
theorem Planned.writable (plans : loop.Planned .textual options shape planned)
    (proper : (Token.ident options.lambdaParameter).Proper) (writable : loop.toStmt.Writable) :
    planned.tidied.Writable := by
  obtain ⟨head, ofSeq, body⟩ := Stmt.writable_foreach_iff.mp writable
  rw [tidied_eq]
  have stops : Stops 0 [.parenClose] := stops_cons.mpr (Nat.le_refl 0)
  cases plans with
  | filterIf lone made =>
      obtain ⟨ofCond, kept⟩ := body.loneIf lone
      rw [Stmt.removeEmptyDecls_of_fits kept.fits]
      exact Stmt.writable_foreach_iff.mpr
        ⟨head, writable_pipeline made ofSeq ofCond stops proper_method.1 proper, kept⟩
  | @filterIfContinue span guard branch rest cond lambda otherwise blockOf more parts isContinue made =>
      rw [blockOf, Stmt.writable_block_iff, List.forall_mem_cons] at body
      obtain ⟨ofCond, -, moved⟩ := body.1.branches parts
      have kept : (Stmt.block span (Stmt.flattened otherwise ++ rest)).Writable :=
        Stmt.writable_block_iff.mpr (List.forall_mem_append.mpr
          ⟨Stmt.Writable.flattened moved, body.2⟩)
      rw [Stmt.removeEmptyDecls_of_fits kept.fits]
      exact Stmt.writable_foreach_iff.mpr
        ⟨head, writable_pipeline made ofSeq ofCond stops proper_method.1 proper, kept⟩
  | @map span declSpan headSpan type name init lambda others rest blockOf made =>
      rw [blockOf, Stmt.writable_block_iff, List.forall_mem_cons] at body
      obtain ⟨ofDecl, behind⟩ := body
      obtain ⟨newHead, ⟨follow, ofInit, ends⟩, left⟩ := writable_decl ofDecl
      have pipeline := writable_pipeline made ofSeq ofInit ends proper_method.2 proper
      refine Stmt.writable_foreach_iff.mpr ⟨newHead, pipeline, ?_⟩
      cases others with
      | nil =>
          have kept : (Stmt.block span rest).Writable := Stmt.writable_block_iff.mpr behind
          rwa [Stmt.removeEmptyDecls_block_cons kept.fits]
      | cons next others =>
          have kept : (Stmt.block span (.decl declSpan ⟨type, next :: others⟩ :: rest)).Writable :=
            Stmt.writable_block_iff.mpr (List.forall_mem_cons.mpr
              ⟨left (List.cons_ne_nil _ _), behind⟩)
          rwa [Stmt.removeEmptyDecls_of_fits kept.fits]

end Loop

namespace Document

theorem of_mem_actions {document : Document} {diagnostics : List Diagnostic} {config : Config}
    {resolver : Resolver} {action : Action}
    (listed : action ∈ (document.actions diagnostics config resolver).1) :
    action.resolver = resolver ∧ action.options = config.options := by
  induction diagnostics with
  | nil => simp [actions] at listed
  | cons diagnostic diagnostics ih =>
      cases others : document.actions diagnostics config resolver with
      | mk behind warnings =>
          rw [others] at ih
          simp only [actions, others] at listed
          split at listed
          · split at listed
            · rcases List.mem_cons.mp listed with rfl | listed
              · exact ⟨rfl, rfl⟩
              · exact ih listed
            · exact ih listed
          · exact ih listed

/-- Fixing keeps the tree writable, round by round. -/
theorem writable_fixRounds {document : Document} {config : Config}
    (proper : (Token.ident config.options.lambdaParameter).Proper) (rounds : Nat)
    (reachable : document.Reachable) (writable : document.tree.Writable) :
    (document.fixRounds config rounds).document.tree.Writable := by
  induction rounds generalizing document with
  | zero => exact writable
  | succ rounds ih =>
      rw [fixRounds]
      cases one : document.fixOne config with
      | mk edit warnings =>
          cases edit with
          | none => exact writable
          | some edit =>
              have found : (firstEdit document (document.actions
                  (document.analyze config .textual false) config .textual).1).1 = some edit :=
                congrArg Prod.fst one
              obtain ⟨action, listed, applied⟩ := exists_applyTo_of_firstEdit found
              obtain ⟨isTextual, sameOptions⟩ := of_mem_actions listed
              have reached : action.apply document false = .ok edit := applied
              obtain ⟨loop, -, -, shape, planned, plans, -, exchanged⟩ :=
                Action.exchanged_of_applyTo reachable.arranged applied
              rw [isTextual, sameOptions] at plans
              obtain ⟨loopWritable, kept⟩ := exchanged.writable writable
              exact ih (.fixed action reachable reached) (kept (plans.writable proper loopWritable))

end Document

theorem SourceTree.writable_of_parse {source : String} {tree : SourceTree}
    (parsed : SourceTree.parse source = (tree, [])) : tree.Writable := by
  obtain ⟨lexemes, -, spelled, fits, -⟩ := SourceTree.of_parse parsed
  refine ⟨fits, fun token listed => ⟨SourceTree.proper_of_parse parsed token listed, ?_⟩⟩
  rw [← spelled] at listed
  exact isComment_of_mem_withoutComments listed

end QueryLoop
