import QueryLoop.Proofs.Fixing.Local
import QueryLoop.Proofs.Fixing.Weighed

namespace QueryLoop

variable (weighing : Weighing)

/-- Every declarator counts. -/
def Weighing.declarators : Weighing where
  worth count := count
  worth_zero := rfl
  worth_lt := by omega

/-- The declarators of all local declarations of a tree. -/
def SourceTree.countDeclarators (tree : SourceTree) : Nat :=
  (tree.statements.map Stmt.declaratorCount).sum

theorem SourceTree.weight_declarators (tree : SourceTree) :
    tree.weight .declarators = tree.countStatements + tree.countDeclarators :=
  tree.weight_eq_countStatements_add

namespace Document

variable {document last : Document} {regions : List Span}

/-- Some fix leads from the one document to the other. -/
def FixesTo (document next : Document) : Prop :=
  ∃ (action : Action) (cancelled : Bool) (edit : Edit),
    action.apply document cancelled = .ok edit ∧ next = { document with tree := edit.tree }

theorem Reachable.weight_lt (reachable : document.Reachable) {action : Action} {cancelled : Bool}
    {edit : Edit} (applied : action.apply document cancelled = .ok edit) :
    edit.tree.weight weighing < document.tree.weight weighing := by
  unfold Action.apply at applied
  split at applied
  · simp at applied
  · obtain ⟨loop, -, -, shape, planned, plans, -, exchanged⟩ :=
      Action.exchanged_of_applyTo reachable.arranged applied
    obtain ⟨others, before_eq, after_eq⟩ := exchanged.weight_eq weighing
    have smaller := plans.weight_tidied_lt weighing
    omega

theorem Reachable.of_fixesTo {next : Document} (reachable : document.Reachable)
    (fixes : document.FixesTo next) :
    next.Reachable ∧ next.tree.weight weighing < document.tree.weight weighing := by
  obtain ⟨action, cancelled, edit, applied, rfl⟩ := fixes
  exact ⟨.fixed action reachable applied, reachable.weight_lt weighing applied⟩

/-- Each fix of a run takes at least one off the weight. -/
theorem FixedTo.length_add_weight_le (run : FixedTo document regions last)
    (reachable : document.Reachable) :
    regions.length + last.tree.weight weighing ≤ document.tree.weight weighing := by
  induction run with
  | done document => simp
  | step action applied later ih =>
      have bound := ih (.fixed action reachable applied)
      have smaller := reachable.weight_lt weighing applied
      simp only [List.length_cons] at bound ⊢
      omega

/-- Fixes cannot follow each other for ever. -/
theorem Reachable.not_endless (reachable : document.Reachable) {run : Nat → Document}
    (opened : run 0 = document) (fixes : ∀ step, (run step).FixesTo (run (step + 1))) : False := by
  have bound : ∀ step, (run step).Reachable ∧
      step + (run step).tree.weight .declarators ≤ document.tree.weight .declarators := by
    intro step
    induction step with
    | zero => exact ⟨opened ▸ reachable, by rw [opened]; omega⟩
    | succ step ih =>
        obtain ⟨reached, smaller⟩ := ih.1.of_fixesTo .declarators (fixes step)
        exact ⟨reached, by omega⟩
  have late := (bound (document.tree.weight .declarators + 1)).2
  omega

/-- A fix leaves fewer statements and declarators than there were.  So a run of fixes has at
most as many as there are statements and declarators in the tree, it ends, and fixing all
that is found makes no more fixes than that. -/
theorem Reachable.fixes_progress (reachable : document.Reachable) :
    (∀ (action : Action) (cancelled : Bool) (edit : Edit),
      action.apply document cancelled = .ok edit →
        edit.tree.countStatements + edit.tree.countDeclarators <
          document.tree.countStatements + document.tree.countDeclarators) ∧
      (∀ regions last, document.FixedTo regions last →
        regions.length + (last.tree.countStatements + last.tree.countDeclarators) ≤
          document.tree.countStatements + document.tree.countDeclarators) ∧
      (¬∃ run : Nat → Document, run 0 = document ∧
        ∀ step, (run step).FixesTo (run (step + 1))) ∧
      ∀ config, ∃ fixed, document.fixAll config false = .ok fixed ∧
        fixed.applied ≤ document.tree.countStatements + document.tree.countDeclarators := by
  simp only [← SourceTree.weight_declarators]
  refine ⟨fun action cancelled edit applied => reachable.weight_lt _ applied,
    fun regions last run => run.length_add_weight_le _ reachable, ?_, fun config => ?_⟩
  · rintro ⟨run, opened, fixes⟩
    exact reachable.not_endless opened fixes
  · have run := fixedTo_fixRounds document config (document.tree.countStatements + 1)
    have bound := run.length_add_weight_le .declarators reachable
    rw [← applied_fixRounds] at bound
    exact ⟨document.fixUntilDone config, rfl, Nat.le_of_add_right_le bound⟩

/-- Four statements and two declarators, of which one fix takes the first declarator. -/
theorem fixes_progress_two_declarators :
    let document := (Document.parse
      "foreach (var a in s) \x7b int b = a.F, c = b.F; G(c); \x7d" "").1
    document.Reachable ∧
      (∃ (action : Action) (edit : Edit), action.apply document false = .ok edit ∧
        edit.tree.countStatements + edit.tree.countDeclarators < 6) ∧
      ∃ fixed, document.fixAll {} false = .ok fixed ∧ fixed.applied ≤ 6 := by
  intro document
  have opened : document.Reachable := .opened _ _
  have counted : document.tree.countStatements + document.tree.countDeclarators = 6 := by
    decide +kernel
  have fixable : ((document.actions (document.analyze {} .textual false) {} .textual).1.any
      fun action => (action.apply document false).toOption.isSome) = true := by
    decide +kernel
  obtain ⟨step, -, -, all⟩ := opened.fixes_progress
  obtain ⟨action, -, succeeds⟩ := List.any_eq_true.mp fixable
  cases applied : action.apply document false with
  | error problem => simp [applied, Except.toOption] at succeeds
  | ok edit =>
      have fewer := step action false edit applied
      exact ⟨opened, ⟨action, edit, applied, counted ▸ fewer⟩, counted ▸ all {}⟩

end Document

end QueryLoop
