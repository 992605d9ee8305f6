import AtlasDb.Analysis.Dataflow
import AtlasDb.Semantics.Simulation

/-!
# What an execution writes

An execution with the assignments that take effect in it. What the statements of a procedure assign
is a parameter (`assigned`): the AST keeps only what the extractors of the parser find, the first
target of a `SET` and the identifiers after an `INTO` (`targets`).
-/

namespace AtlasDb.Semantics

open Core Lib Parsing Analysis

/-! ## Executions with their writes -/

/-- The symbols the parser has a statement assign. -/
def targets (stmt : Statement) : List String :=
  (stmt.assignment.toList.map AssignmentBinding.targetName ++ stmt.selectIntoTargets.getD [] ++
    stmt.fetch.toList.flatMap FetchBinding.targetNames ++
    stmt.execute.toList.flatMap DynamicExecuteBinding.intoTargetNames).map Text.upperString

/-- The assignments of a procedure whose statements assign what the parser has them assign. -/
def boundBy (ast : ProcedureAst) (node : NodeRef) : List String :=
  (((statementsOf ast.body).lookup node).map targets).getD []

/-- The nodes visited, each with whether its assignments took effect. -/
abbrev WriteLog : Type := List (Visit × Bool)

/-- Assignments take effect when the statement control is at completes; only a query may complete
without them, when it finds no row. -/
def LogOk (ast : ProcedureAst) (a : Config) (log : WriteLog) : Prop :=
  ∀ entry ∈ log,
    (entry.2 = true → entry.1.outcome = .completed ∧
      ∃ stmt ns k, a = .run (.simple entry.1.node stmt :: ns) k) ∧
    ∀ stmt, (entry.1.node, stmt) ∈ statementsOf ast.body → entry.1.outcome = .completed →
      entry.2 = false → bindingCanFail stmt.kind = true

/-- A step of an execution, with the writes it makes. -/
def WritingStep (collate : Char → Nat) (M : ConditionModel) (ast : ProcedureAst) (a : Config)
    (log : WriteLog) (b : Config) : Prop :=
  StepBy (.sql collate) M (procedureScope ast) a (log.map Prod.fst) b ∧ LogOk ast a log

theorem logOk_nil (ast : ProcedureAst) (a : Config) : LogOk ast a [] := List.forall_mem_nil _

theorem logOk_complete {ast : ProcedureAst} {id : NodeRef} {stmt : Statement} {ns : List Node}
    {k : List Frame} : LogOk ast (.run (.simple id stmt :: ns) k) [(⟨id, .completed⟩, true)] := by
  intro entry hentry
  obtain rfl := List.mem_singleton.mp hentry
  exact ⟨fun _ => ⟨rfl, _, _, _, rfl⟩, fun _ _ _ h => by cases h⟩

/-- Nodes that are not statements write nothing. -/
theorem logOk_of_not_statement {ast : ProcedureAst} {a : Config} {log : WriteLog}
    (h : ∀ entry ∈ log, entry.2 = false ∧
      (entry.1.outcome = .completed → ∀ s ∈ statementsOf ast.body, s.1 ≠ entry.1.node)) :
    LogOk ast a log := by
  intro entry hentry
  obtain ⟨hfalse, hnone⟩ := h entry hentry
  refine ⟨fun htrue => ?_, fun stmt hstmt hcompleted _ => absurd rfl (hnone hcompleted _ hstmt)⟩
  rw [hfalse] at htrue
  cases htrue

/-! ## The last write -/

section LastWrite

variable {assigned : NodeRef → List String} {symbol : String} {node : NodeRef}
  {entry : Visit × Bool} {log log' : WriteLog}

/-- The visit wrote the symbol. -/
def Writes (assigned : NodeRef → List String) (symbol : String) (entry : Visit × Bool) : Prop :=
  entry.2 = true ∧ symbol ∈ assigned entry.1.node

/-- The statement at the node made the last write of the symbol. -/
def LastWrite (assigned : NodeRef → List String) (symbol : String) (node : NodeRef)
    (log : WriteLog) : Prop :=
  ∃ before entry after, log = before ++ entry :: after ∧ entry.1.node = node ∧
    Writes assigned symbol entry ∧ ∀ later ∈ after, ¬ Writes assigned symbol later

theorem lastWrite_append (h : LastWrite assigned symbol node (log ++ log')) :
    LastWrite assigned symbol node log' ∨
      LastWrite assigned symbol node log ∧ ∀ entry ∈ log', ¬ Writes assigned symbol entry := by
  obtain ⟨before, entry, after, hsplit, hnode, hwrites, hlast⟩ := h
  rcases List.append_eq_append_iff.mp hsplit with ⟨inner, rfl, hsplit'⟩ | ⟨rest, rfl, hsplit'⟩
  · exact .inl ⟨inner, entry, after, hsplit', hnode, hwrites, hlast⟩
  · cases rest with
    | nil => exact .inl ⟨[], entry, after, by simpa using hsplit'.symm, hnode, hwrites, hlast⟩
    | cons first rest =>
      obtain ⟨rfl, rfl⟩ : entry = first ∧ after = rest ++ log' := by simpa using hsplit'
      refine .inr ⟨⟨before, entry, rest, rfl, hnode, hwrites, ?_⟩, ?_⟩
      · exact fun later h => hlast later (List.mem_append_left _ h)
      · exact fun later h => hlast later (List.mem_append_right _ h)

theorem lastWrite_cons (h : LastWrite assigned symbol node (entry :: log)) :
    LastWrite assigned symbol node log ∨ entry.1.node = node ∧ Writes assigned symbol entry ∧
      ∀ later ∈ log, ¬ Writes assigned symbol later := by
  obtain ⟨before, first, after, hsplit, hnode, hwrites, hlast⟩ := h
  cases before with
  | nil =>
    obtain ⟨rfl, rfl⟩ : entry = first ∧ log = after := by simpa using hsplit
    exact .inr ⟨hnode, hwrites, hlast⟩
  | cons other before =>
    obtain ⟨-, rfl⟩ : entry = other ∧ log = before ++ first :: after := by simpa using hsplit
    exact .inl ⟨before, first, after, rfl, hnode, hwrites, hlast⟩

theorem lastWrite_nil : ¬ LastWrite assigned symbol node [] := by
  rintro ⟨before, entry, after, hsplit, -⟩
  simp at hsplit

end LastWrite

end AtlasDb.Semantics
