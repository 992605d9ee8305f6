import AtlasDb.Lib.Search
import AtlasDb.Parsing.Bindings
import Mathlib.Data.Finset.Card

/-!
# Tenant bindings

`analysis/tenant_isolation.py: TenantIsolationAnalyzer._has_tenant_binding` and what it calls. It
joins the names next to each equals sign of a statement in a graph and looks for a way from the
tenant column of each alias to an accepted parameter. `_connected` returns at the first hit; here
the search runs to its end and is then looked at.
-/

namespace AtlasDb.Analysis

open Core Lib Parsing

structure TenantIsolationRule where
  relationName : String
  tenantColumn : String
  acceptedParameterNames : List String := ["P_TENANT_ID"]
deriving DecidableEq

/-! ## Relations and their aliases -/

/-- `value.split(".")[-1]` -/
def afterLastDot (text : List Char) : List Char := (text.reverse.takeWhile (· ≠ '.')).reverse

/-- `_normalize_relation`. -/
def normalizeRelation (value : String) : String :=
  String.ofList (afterLastDot (Text.upper (Text.stripBy (· = '"') (Text.strip value.toList))))

/-- The loop that reads a qualified name: its parts and what follows. -/
def readName : List Token → List Token × List Token
  | [] => ([], [])
  | t :: ts =>
    if t.isIdentifier ∨ t.value = "." then
      if t.value ≠ "." ∧ ts.head?.map Token.value ≠ some "." then ([t], ts)
      else
        let (parts, rest) := readName ts
        (t :: parts, rest)
    else ([], t :: ts)

def reservedAfterRelation : List String :=
  ["ON", "WHERE", "INNER", "LEFT", "RIGHT", "FULL", "CROSS", "JOIN", "GROUP", "ORDER", "HAVING",
    "FETCH", "UNION", "EXCEPT", "INTERSECT", "SET", "USING", "WHEN", "VALUES", "RETURNING", "WITH"]

/-- The relation and alias after a `FROM`, `JOIN` or `UPDATE`. -/
def relationAfter (tokens : List Token) : Option (String × String) :=
  if tokens.head?.map Token.value = some "(" then none
  else
    match readName tokens with
    | ([], _) => none
    | (parts, rest) =>
      let relation := normalizeRelation (String.ofList
        (parts.flatMap fun t => Text.stripBy (· = '"') t.value.toList))
      let rest := if rest.head?.map Token.upper = some "AS" then rest.tail else rest
      let alias_ := match rest.head? with
        | some t =>
          if t.isIdentifier ∧ t.upper ∉ reservedAfterRelation then t.name else relation
        | none => relation
      some (relation, alias_)

/-- The pairs of a relation and an alias that follow a `FROM`, `JOIN` or `UPDATE`. -/
def listedRelations : List Token → List (String × String)
  | [] => []
  | t :: ts =>
    (if t.upper = "FROM" ∨ t.upper = "JOIN" ∨ t.upper = "UPDATE" then (relationAfter ts).toList
     else []) ++ listedRelations ts

/-- `_relation_aliases`. -/
def relationAliases (tokens : List Token) : List (String × String) :=
  listedRelations tokens ++
    if tokens.head?.map Token.upper = some "INSERT" ∨
    tokens.head?.map Token.upper = some "MERGE" then
      match (tokens.dropWhile (·.upper ≠ "INTO")).tail.head? with
      | some t => [(normalizeRelation t.value, normalizeRelation t.value)]
      | none => []
    else []

/-! ## The graph of names -/

/-- `_operand_before`; the tokens before the sign come backwards. -/
def operandBefore (before : List Token) : Option String :=
  match before with
  | last :: dot :: qualifier :: _ =>
    if dot.value = "." ∧ last.isIdentifier ∧ qualifier.isIdentifier then
      some (qualifier.name ++ "." ++ last.name)
    else if last.isIdentifier then some last.name else none
  | last :: _ => if last.isIdentifier then some last.name else none
  | [] => none

/-- `_operand_after`. -/
def operandAfter (after : List Token) : Option String :=
  match after with
  | first :: dot :: column :: _ =>
    if dot.value = "." ∧ first.isIdentifier ∧ column.isIdentifier then
      some (first.name ++ "." ++ column.name)
    else if first.isIdentifier then some first.name else none
  | first :: _ => if first.isIdentifier then some first.name else none
  | [] => none

/-- The names on both sides of the equals sign at a position. -/
def sides (tokens : List Token) (index : Nat) : Option (String × String) :=
  if tokens[index]?.map Token.value = some "=" then
    match operandBefore (tokens.take index).reverse, operandAfter (tokens.drop (index + 1)) with
    | some left, some right => some (left, right)
    | _, _ => none
  else none

/-- The edges of `graph`, each in both directions. -/
def nameEdges (tokens : List Token) : List (String × String) :=
  (List.range tokens.length).flatMap fun i =>
    match sides tokens i with
    | some (left, right) => [(left, right), (right, left)]
    | none => []

/-- `graph.get(name, set())` -/
def neighbours (edges : List (String × String)) (name : String) : List String :=
  (edges.filter (·.1 = name)).map Prod.snd

/-- `_connected`. -/
def connected (start : String) (accepted : List String) (edges : List (String × String)) : Bool :=
  start ∈ accepted ||
    (search (neighbours edges) ((edges.length + 1) * edges.length + 1) [start] []).any fun name =>
      (neighbours edges name).any (· ∈ accepted)

/-! ## The binding -/

/-- The aliases of the relation, or the relation itself. -/
def aliasesOf (tokens : List Token) (relation : String) : List String :=
  match ((relationAliases tokens).filter (·.1 = normalizeRelation relation)).map Prod.snd with
  | [] => [normalizeRelation relation]
  | aliases => aliases.dedup

/-- The accepted names; with none, every name next to an equals sign. -/
def acceptedNames (tokens : List Token) (rule : TenantIsolationRule) : List String :=
  match rule.acceptedParameterNames.map Text.upperString with
  | [] => (nameEdges tokens).map Prod.snd
  | names => names

/-- The names the tenant column of the alias may be written with. -/
def candidates (tokens : List Token) (rule : TenantIsolationRule) (relation alias_ : String) :
    List String :=
  let tenant := Text.upperString rule.tenantColumn
  (alias_ ++ "." ++ tenant) :: if (aliasesOf tokens relation).length = 1 then [tenant] else []

/-- `_has_tenant_binding`. -/
def hasTenantBinding (tokens : List Token) (rule : TenantIsolationRule) (relation : String) :
    Bool :=
  (aliasesOf tokens relation).all fun alias_ =>
    (candidates tokens rule relation alias_).any fun candidate =>
      connected candidate (acceptedNames tokens rule) (nameEdges tokens)

example : hasTenantBinding
    (scan "SELECT * FROM S.ORDERS O JOIN CUST C ON O.T = C.T WHERE C.T = P_TENANT_ID").tokens
    { relationName := "ORDERS", tenantColumn := "T" } "S.ORDERS" = true := by decide +kernel

/-! ## What the search finds -/

/-- The equals signs of the text link the two names. -/
def Linked (edges : List (String × String)) : String → String → Prop :=
  Relation.ReflTransGen fun a b => (a, b) ∈ edges

variable {edges : List (String × String)}

theorem mem_neighbours {a b : String} :
    b ∈ neighbours edges a ↔ (a, b) ∈ edges := by
  simp only [neighbours, List.mem_map, List.mem_filter, decide_eq_true_eq]
  constructor
  · rintro ⟨⟨x, y⟩, ⟨hmem, rfl⟩, rfl⟩
    exact hmem
  · intro h
    exact ⟨(a, b), ⟨h, rfl⟩, rfl⟩

theorem mem_search_neighbours {start name : String} :
    name ∈ search (neighbours edges) ((edges.length + 1) * edges.length + 1) [start] [] ↔
      Linked edges start name := by
  have hcard : (insert start (edges.map Prod.snd).toFinset).card ≤ edges.length + 1 := by
    refine (Finset.card_insert_le _ _).trans (Nat.succ_le_succ ?_)
    exact (List.toFinset_card_le _).trans_eq (List.length_map _)
  have hlength (x : String) : (neighbours edges x).length ≤ edges.length := by
    rw [neighbours, List.length_map]
    exact List.length_filter_le _ _
  have hclosed : ∀ x ∈ insert start (edges.map Prod.snd).toFinset, ∀ y ∈ neighbours edges x,
      y ∈ insert start (edges.map Prod.snd).toFinset := by
    intro x _ y hy
    refine Finset.mem_insert_of_mem (List.mem_toFinset.mpr ?_)
    exact List.mem_map.mpr ⟨(x, y), mem_neighbours.mp hy, rfl⟩
  rw [mem_search_iff _ hclosed (Finset.mem_insert_self _ _) (pendingTurns_start_le hcard hlength),
    Linked]
  simp only [mem_neighbours]

theorem connected_iff {start : String} {accepted : List String} :
    connected start accepted edges = true ↔ ∃ name ∈ accepted, Linked edges start name := by
  simp only [connected, Bool.or_eq_true, decide_eq_true_eq, List.any_eq_true, mem_search_neighbours,
    mem_neighbours]
  constructor
  · rintro (h | ⟨name, hname, next, hnext, haccepted⟩)
    · exact ⟨start, h, .refl⟩
    · exact ⟨next, haccepted, hname.tail hnext⟩
  · rintro ⟨name, haccepted, hlinked⟩
    rcases Relation.ReflTransGen.cases_tail hlinked with rfl | ⟨last, hlast, hedge⟩
    · exact .inl haccepted
    · exact .inr ⟨last, hlast, name, hedge, haccepted⟩

/-- Every alias has a name of its tenant column that is linked to an accepted name. -/
def AllLinked (tokens : List Token) (rule : TenantIsolationRule) (relation : String) : Prop :=
  ∀ alias_ ∈ aliasesOf tokens relation, ∃ candidate ∈ candidates tokens rule relation alias_,
    ∃ name ∈ acceptedNames tokens rule, Linked (nameEdges tokens) candidate name

theorem hasTenantBinding_iff {tokens : List Token} {rule : TenantIsolationRule}
    {relation : String} :
    hasTenantBinding tokens rule relation = true ↔ AllLinked tokens rule relation := by
  simp only [hasTenantBinding, List.all_eq_true, List.any_eq_true, connected_iff, AllLinked]

end AtlasDb.Analysis
