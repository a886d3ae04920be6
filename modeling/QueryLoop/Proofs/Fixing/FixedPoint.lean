import QueryLoop.Proofs.Fixing.Weighed

namespace QueryLoop

/-! Fixing until nothing is left to fix.

The rounds of a run are bounded by the number of statements.  The fixes are bounded by that
number with the extra declarators: the last declarator that is left takes its declaration
along, so one declarator of each declaration does not count.
-/

namespace Stmt

/-- The declarators of a declaration behind the first one. -/
def extraDeclarators : Stmt → Nat
  | decl _ declared => declared.declarators.length - 1
  | _ => 0

end Stmt

/-- Every declarator counts but the first. -/
def Weighing.extra : Weighing where
  worth count := count - 1
  worth_zero := rfl
  worth_lt := by omega

namespace SourceTree

/-- All declarators of a tree that are not the first of their declaration. -/
def extraDeclarators (tree : SourceTree) : Nat :=
  (tree.statements.map Stmt.extraDeclarators).sum

/-- The number of statements, with every extra declarator counted as one more. -/
def size (tree : SourceTree) : Nat :=
  tree.countStatements + tree.extraDeclarators

theorem size_eq_weight (tree : SourceTree) : tree.size = tree.weight .extra := by
  have worth_eq : Stmt.extraDeclarators =
      fun stmt => Weighing.extra.worth stmt.declaratorCount := by
    funext stmt
    cases stmt <;> rfl
  rw [weight_eq_countStatements_add, size, extraDeclarators, worth_eq]

end SourceTree

namespace Document

variable {document : Document} {config : Config}

theorem analyze_eq_map (rule : config.rule = {}) (document : Document) :
    document.analyze config .textual false =
      (document.tree.findings .textual config.options).map
        (Diagnostic.ofFinding {} document.path) := by
  simp only [analyze, rule, if_true, SourceTree.scan, Bool.false_and, Bool.false_eq_true,
    if_false]

/-- Where nothing is reported there is nothing to fix; otherwise one fix is made, and
the tree gets smaller. -/
theorem fixOne_cases (reachable : document.Reachable) (rule : config.rule = {}) :
    (document.analyze config .textual false = [] ∧ document.fixOne config = (none, [])) ∨
      document.analyze config .textual false ≠ [] ∧
        ∃ edit warnings, document.fixOne config = (some edit, warnings) ∧
          Reachable { document with tree := edit.tree } ∧
          edit.tree.size < document.tree.size ∧ 2 ≤ edit.tree.size := by
  have analyzed := analyze_eq_map rule document
  cases found : document.tree.findings .textual config.options with
  | nil =>
      rw [found] at analyzed
      refine .inl ⟨analyzed, ?_⟩
      simp [fixOne, analyzed, actions, firstEdit]
  | cons finding others =>
      rw [found] at analyzed
      refine .inr ⟨by simp [analyzed], ?_⟩
      let action : Action := ⟨"Convert to " ++ (Refactor.ofShape finding.shape).pipelineMethod,
        Refactor.ofShape finding.shape, Diagnostic.ofFinding {} document.path finding,
        config.options, .textual⟩
      have isFound : finding ∈ document.tree.findings action.resolver config.options := by
        simp [action, found]
      obtain ⟨loop, planned, edit, -, plans, applied, -, exchanged⟩ :=
        Action.applyTo_of_finding reachable.arranged isFound rfl rfl
      have known : (Diagnostic.ofFinding {} document.path finding).refactor =
          .ok (Refactor.ofShape finding.shape) := Diagnostic.refactor_eq_ok rfl
      have first : (document.actions (document.analyze config .textual false) config .textual).1 =
          action :: (document.actions (others.map (Diagnostic.ofFinding {} document.path))
            config .textual).1 := by
        rw [analyzed, List.map_cons, actions]
        simp only [known]
        rfl
      obtain ⟨rest, before_eq, after_eq⟩ := exchanged.weight_eq .extra
      rw [← SourceTree.size_eq_weight] at before_eq after_eq
      have applies : action.apply document false = .ok edit := applied
      refine ⟨edit, (document.actions (document.analyze config .textual false)
        config .textual).2, ?_, .fixed action reachable applies, ?_, ?_⟩
      · simp [fixOne, first, firstEdit, applied]
      · have smaller := plans.weight_tidied_lt .extra
        omega
      · have least := planned.two_le_weight_tidied .extra
        omega

/-- The number of fixes is bounded by the size of the tree, and a run that stops early
leaves nothing to report. -/
theorem fixRounds_spec (rounds : Nat) (reachable : document.Reachable) (rule : config.rule = {}) :
    (document.fixRounds config rounds).document.Reachable ∧
      ((document.fixRounds config rounds).applied < rounds →
        (document.fixRounds config rounds).document.analyze config .textual false = []) ∧
      ((document.fixRounds config rounds).applied ≠ 0 →
        (document.fixRounds config rounds).applied + 2 ≤ document.tree.size) := by
  induction rounds generalizing document with
  | zero => exact ⟨reachable, by simp, by simp [fixRounds]⟩
  | succ rounds ih =>
      rcases fixOne_cases reachable rule with
        ⟨clean, none_left⟩ | ⟨-, edit, warnings, one, reachable', smaller, least⟩
      · have ends : document.fixRounds config (rounds + 1) = ⟨document, 0, [], []⟩ := by
          rw [fixRounds, none_left]
        rw [ends]
        exact ⟨reachable, fun _ => clean, by simp⟩
      · obtain ⟨leads, stops, bounded⟩ := ih reachable'
        rw [fixRounds, one]
        dsimp only at bounded ⊢
        refine ⟨leads, fun fewer => stops (by omega), fun _ => ?_⟩
        by_cases last : (fixRounds { document with tree := edit.tree } config rounds).applied = 0
        · omega
        · have inner := bounded last
          omega

/-- Of two runs, of which the longer one leaves nothing to report, the shorter one
leaves nothing exactly if it has rounds enough for all fixes of the longer one. -/
theorem analyze_fixRounds_iff {rounds enough : Nat} (reachable : document.Reachable)
    (rule : config.rule = {})
    (done : (document.fixRounds config enough).document.analyze config .textual false = []) :
    (document.fixRounds config rounds).document.analyze config .textual false = [] ↔
      (document.fixRounds config enough).applied ≤ rounds := by
  induction rounds generalizing document enough with
  | zero =>
      cases enough with
      | zero => simpa [fixRounds] using done
      | succ enough =>
          rcases fixOne_cases reachable rule with
            ⟨clean, none_left⟩ | ⟨reported, edit, warnings, one, -⟩
          · simp [fixRounds, none_left, clean]
          · simp [fixRounds, one, reported]
  | succ rounds ih =>
      rcases fixOne_cases reachable rule with
        ⟨clean, none_left⟩ | ⟨reported, edit, warnings, one, reachable', -⟩
      · cases enough with
        | zero => simp [fixRounds, none_left, clean]
        | succ enough => simp [fixRounds, none_left, clean]
      · cases enough with
        | zero => exact absurd done reported
        | succ enough =>
            rw [fixRounds, one] at done
            have later := ih reachable' done
            simpa [fixRounds, one] using later

theorem analyze_fixRounds_size (reachable : document.Reachable) (rule : config.rule = {}) :
    (document.fixRounds config document.tree.size).document.analyze config .textual false = [] := by
  obtain ⟨-, stops, bounded⟩ := fixRounds_spec document.tree.size reachable rule
  by_cases none_left : document.tree.size = 0
  · rcases fixOne_cases reachable rule with ⟨clean, -⟩ | ⟨-, edit, -, -, -, smaller, -⟩
    · rw [none_left]
      exact clean
    · omega
  · by_cases applied : (document.fixRounds config document.tree.size).applied = 0
    · exact stops (by omega)
    · have fewer := bounded applied
      exact stops (by omega)

theorem fixAll_of_clean (reachable : document.Reachable) (rule : config.rule = {})
    (clean : document.analyze config .textual false = []) :
    document.fixAll config false = .ok ⟨document, 0, [], []⟩ := by
  rcases fixOne_cases reachable rule with ⟨-, none_left⟩ | ⟨reported, -⟩
  · simp [fixAll, fixUntilDone, fixRounds, none_left]
  · exact absurd clean reported

/-- Enough rounds always lead to a document with nothing to report.  The rounds that
are made, one for each statement and one more, are enough exactly if no more fixes are
needed, for which it is enough that there are at most three extra declarators.  Then
fixing again changes nothing. -/
theorem fixAll_fixedPoint_iff (source path : String) (options : ScanOptions) :
    let config : Config := { options }
    let document := (Document.parse source path).1
    let complete := document.fixRounds config document.tree.size
    ∃ fixed, document.fixAll config false = .ok fixed ∧
      complete.document.analyze config .textual false = [] ∧
      (fixed.document.analyze config .textual false = [] ↔
        complete.applied ≤ document.tree.countStatements + 1) ∧
      (document.tree.extraDeclarators ≤ 3 →
        fixed.document.analyze config .textual false = []) ∧
      (fixed.document.analyze config .textual false = [] →
        fixed.document.fixAll config false = .ok ⟨fixed.document, 0, [], []⟩) := by
  intro config document complete
  have opened : document.Reachable := .opened source path
  have rule : config.rule = {} := rfl
  have done : complete.document.analyze config .textual false = [] :=
    analyze_fixRounds_size opened rule
  have enough : (document.fixUntilDone config).document.analyze config .textual false = [] ↔
      complete.applied ≤ document.tree.countStatements + 1 :=
    analyze_fixRounds_iff opened rule done
  refine ⟨document.fixUntilDone config, rfl, done, enough, fun few => enough.mpr ?_, ?_⟩
  · obtain ⟨-, -, bounded⟩ := fixRounds_spec document.tree.size opened rule
    have size_eq : document.tree.size =
      document.tree.countStatements + document.tree.extraDeclarators := rfl
    by_cases none_applied : complete.applied = 0
    · omega
    · have bound : complete.applied + 2 ≤ document.tree.size := bounded none_applied
      omega
  · exact fixAll_of_clean (fixRounds_spec _ opened rule).1 rule

/-- Five declarators that are made from each other, in a loop of three statements. -/
theorem fixAll_fixedPoint_fails :
    let config : Config := {}
    let document := (Document.parse
      "foreach (var a in s) \x7b int b = a.F, c = b.F, d = c.F, e = d.F, f = e.F; \x7d" "").1
    ∃ fixed, document.fixAll config false = .ok fixed ∧
      fixed.document.analyze config .textual false ≠ [] := by
  refine ⟨_, rfl, ?_⟩
  decide +kernel

end Document

end QueryLoop
