import AtlasDb.Parsing.Bindings

/-!
# The symbols a statement assigns

Statements of SQL PL as the tokens they are written with, the symbols each assigns, and when the
`DEF` facts of its node are exactly these. The extractors look at one position of the tokens each:
the one after `SET`, the identifiers after `INTO`, the first token of each target between `INTO` and
`FROM`. `Covered` says for each form when that is enough.
-/

namespace AtlasDb.Parsing

open Core

/-! ## Written statements -/

/-- A word of the dialect, in either case. -/
structure Keyword (word : String) where
  token : Token
  upper_eq : token.upper = word
  value_upper : Text.upperString token.value = word

/-- A punctuation mark. -/
structure Mark (value : String) where
  token : Token
  value_eq : token.value = value
  upper_eq : token.upper = value
  kind_eq : token.kind = .symbol

/-- The words that end the part of a statement an identifier may stand in. -/
def reservedWords : List String := ["INTO", "FROM", "VALUES", "USING", "EXECUTE", "IMMEDIATE"]

/-- A name, ordinary or delimited. -/
structure Ident where
  token : Token
  identifier : token.isIdentifier = true
  value_head : ∃ c cs, token.value.toList = c :: cs ∧ (isWordStart c = true ∨ c = '"')
  free : token.upper ∉ reservedWords

/-- The parentheses of the tokens match from this depth down to none, and every token outside them
is good. -/
def Flat (good : Token → Prop) (depth : Int) : List Token → Prop
  | [] => depth = 0
  | t :: ts =>
    if t.value = "(" then Flat good (depth + 1) ts
    else if t.value = ")" then Flat good (depth - 1) ts
    else (depth = 0 → good t) ∧ Flat good depth ts

/-- What an assignment writes: a variable or parameter, or a field or an element of one. -/
structure Target where
  root : Ident
  access : List Token
  inner : ∀ t ∈ access, t.upper ≠ "INTO" ∧ t.upper ≠ "USING" ∧ t.value ≠ ";"
  flat : Flat (fun t => t.value ≠ "," ∧ t.upper ≠ "FROM" ∧ t.upper ≠ "VALUES") 0 access

namespace Target

def symbol (t : Target) : String := t.root.token.name

def tokens (t : Target) : List Token := t.root.token :: t.access

end Target

/-- Targets separated by commas. -/
structure Targets where
  first : Target
  more : List (Mark "," × Target)

namespace Targets

def all (ts : Targets) : List Target := ts.first :: ts.more.map Prod.snd

def symbols (ts : Targets) : List String := ts.all.map Target.symbol

def tokens (ts : Targets) : List Token :=
  ts.first.tokens ++ ts.more.flatMap fun t => t.1.token :: t.2.tokens

end Targets

def isEquals (t : Token) : Prop := t.value = "=" ∨ t.value = ":="

instance : DecidablePred isEquals := fun _ => inferInstanceAs (Decidable (_ ∨ _))

/-- `target = expression`, in a `SET` or a `GET DIAGNOSTICS`. -/
structure Assignment where
  target : Target
  equals : Token
  sign : isEquals equals
  expression : List Token

def Assignment.tokens (a : Assignment) : List Token := a.target.tokens ++ a.equals :: a.expression

structure Assignments where
  first : Assignment
  more : List (Mark "," × Assignment)

namespace Assignments

def symbols (as : Assignments) : List String :=
  as.first.target.symbol :: as.more.map fun a => a.2.target.symbol

def tokens (as : Assignments) : List Token :=
  as.first.tokens ++ as.more.flatMap fun a => a.1.token :: a.2.tokens

end Assignments

/-- An argument of a `CALL`; what an `OUT` or `INOUT` parameter is passed is written. -/
inductive Argument where
  | input (expression : List Token)
  | output (target : Target)

namespace Argument

def tokens : Argument → List Token
  | .input expression => expression
  | .output target => target.tokens

def symbol? : Argument → Option String
  | .input _ => none
  | .output target => some target.symbol

end Argument

/-- The words whose statements have bindings. -/
def bindingWords : List String := ["SET", "SELECT", "WITH", "VALUES", "FETCH", "EXECUTE"]

/-- The forms of statements, with their tokens. `FETCH FROM c INTO v`, whose cursor the parser takes
to be `FROM`, is not among them. -/
inductive SqlForm where
  | set (set : Keyword "SET") (assignments : Assignments)
  | setRow (set : Keyword "SET") (opening : Mark "(") (targets : Targets) (closing : Mark ")")
      (equals : Token) (sign : isEquals equals) (row : List Token)
  | setRegister (set : Keyword "SET") (register : Ident) (rest : List Token)
  | selectInto (select : Token) (query : List Token) (into : Keyword "INTO") (targets : Targets)
      (from_ : Keyword "FROM") (rest : List Token) (first : select.upper = "SELECT" ∨
        select.upper = "WITH")
      (second : ∀ t ∈ query.head?, t.value ≠ ":")
      (flat : Flat (fun t => t.upper ≠ "INTO") 0 (select :: query))
  | valuesInto (values : Keyword "VALUES") (row : List Token) (into : Keyword "INTO")
      (targets : Targets) (second : ∀ t ∈ row.head?, t.value ≠ ":")
      (flat : Flat (fun t => t.upper ≠ "INTO") 0 row)
  | fetch (fetch : Keyword "FETCH") (cursor : Ident) (more : List Token) (into : Keyword "INTO")
      (targets : Targets) (cursorOnly : ∀ t ∈ more, t.upper ≠ "INTO")
  | execute (execute : Keyword "EXECUTE") (name : Ident) (into : Option (Keyword "INTO" × Targets))
      (using_ : Option (Keyword "USING" × List Token))
      (plain : ∀ u ∈ using_, ∀ t ∈ u.2, t.upper ≠ "INTO" ∧ t.value ≠ ";")
  | executeImmediate (execute : Keyword "EXECUTE") (immediate : Keyword "IMMEDIATE")
      (source : List Token) (nonempty : source ≠ []) (plain : ∀ t ∈ source, t.value ≠ ";")
  | getDiagnostics (get : Keyword "GET") (diagnostics : Keyword "DIAGNOSTICS") (area : List Token)
      (assignments : Assignments)
  | call (call : Keyword "CALL") (routine : Ident) (rest : List Token) (arguments : List Argument)
  | other (first : Token) (rest : List Token) (second : ∀ t ∈ rest.head?, t.value ≠ ":")
      (plain : first.upper ∉ bindingWords)

namespace SqlForm

def tokens : SqlForm → List Token
  | .set kw assignments => kw.token :: assignments.tokens
  | .setRow kw opening targets closing equals _ row =>
    kw.token :: opening.token :: (targets.tokens ++ closing.token :: equals :: row)
  | .setRegister kw register rest => kw.token :: register.token :: rest
  | .selectInto select query into targets from_ rest _ _ _ =>
    (select :: query) ++ into.token :: (targets.tokens ++ from_.token :: rest)
  | .valuesInto kw row into targets _ _ => kw.token :: (row ++ into.token :: targets.tokens)
  | .fetch kw cursor more into targets _ =>
    kw.token :: cursor.token :: (more ++ into.token :: targets.tokens)
  | .execute kw name into using_ _ =>
    kw.token :: name.token ::
      ((into.toList.flatMap fun i => i.1.token :: i.2.tokens) ++
        using_.toList.flatMap fun u => u.1.token :: u.2)
  | .executeImmediate kw immediate source _ _ => kw.token :: immediate.token :: source
  | .getDiagnostics get diagnostics area assignments =>
    get.token :: diagnostics.token :: (area ++ assignments.tokens)
  | .call kw routine rest arguments =>
    kw.token :: routine.token :: (rest ++ arguments.flatMap Argument.tokens)
  | .other first rest _ _ => first :: rest

/-- The variables and parameters the statement assigns. -/
def assigned : SqlForm → List String
  | .set _ assignments => assignments.symbols
  | .setRow _ _ targets _ _ _ _ => targets.symbols
  | .setRegister _ _ _ => []
  | .selectInto _ _ _ targets _ _ _ _ _ => targets.symbols
  | .valuesInto _ _ _ targets _ _ => targets.symbols
  | .fetch _ _ _ _ targets _ => targets.symbols
  | .execute _ _ into _ _ => into.toList.flatMap fun i => i.2.symbols
  | .executeImmediate _ _ _ _ _ => []
  | .getDiagnostics _ _ _ assignments => assignments.symbols
  | .call _ _ _ arguments => arguments.filterMap Argument.symbol?
  | .other _ _ _ _ => []

end SqlForm

/-- A statement, with its label and the semicolon after it if it has them. -/
structure SqlStatement where
  label : Option (Ident × Mark ":")
  form : SqlForm
  terminator : Option (Mark ";")

namespace SqlStatement

def labelTokens (s : SqlStatement) : List Token :=
  s.label.toList.flatMap fun l => [l.1.token, l.2.token]

def endTokens (s : SqlStatement) : List Token := s.terminator.toList.map Mark.token

def tokens (s : SqlStatement) : List Token := s.labelTokens ++ s.form.tokens ++ s.endTokens

end SqlStatement

/-! ## Single tokens -/

variable {word : String}

theorem Keyword.value_ne (k : Keyword word) {value : String}
    (h : Text.upperString value ≠ word) : k.token.value ≠ value := by
  intro hvalue
  exact h (hvalue ▸ k.value_upper)

theorem Ident.value_ne (i : Ident) {value : String}
    (h : (value.toList.head?.any fun c => !isWordStart c && c ≠ '"') = true) :
    i.token.value ≠ value := by
  rintro rfl
  obtain ⟨c, cs, hvalue, hhead⟩ := i.value_head
  rw [hvalue] at h
  rcases hhead with hhead | hhead
  · simp [hhead] at h
  · simp [hhead] at h

theorem Ident.upper_ne (i : Ident) (h : word ∈ reservedWords) :
    i.token.upper ≠ word := fun heq => i.free (heq ▸ h)

/-! ## The first word -/

theorem SqlForm.exists_first (form : SqlForm) :
    ∃ first rest, form.tokens = first :: rest ∧ ∀ t ∈ rest.head?, t.value ≠ ":" := by
  have hident (i : Ident) : i.token.value ≠ ":" := i.value_ne (by decide)
  cases form with
  | set kw assignments =>
    refine ⟨_, _, rfl, ?_⟩
    simpa [Assignments.tokens, Assignment.tokens, Target.tokens] using hident _
  | setRow kw opening => exact ⟨_, _, rfl, by simp [opening.value_eq]⟩
  | setRegister kw register => exact ⟨_, _, rfl, by simpa using hident register⟩
  | selectInto select query into targets from_ rest first second flat =>
    refine ⟨select, _, rfl, ?_⟩
    cases query with
    | nil => simpa using into.value_ne (by decide)
    | cons t query => simpa using second
  | valuesInto kw row into targets second =>
    refine ⟨kw.token, _, rfl, ?_⟩
    cases row with
    | nil => simpa using into.value_ne (by decide)
    | cons t row => simpa using second
  | fetch kw cursor => exact ⟨_, _, rfl, by simpa using hident cursor⟩
  | execute kw name => exact ⟨_, _, rfl, by simpa using hident name⟩
  | executeImmediate kw immediate =>
    exact ⟨_, _, rfl, by simpa using immediate.value_ne (by decide)⟩
  | getDiagnostics get diagnostics =>
    exact ⟨_, _, rfl, by simpa using diagnostics.value_ne (by decide)⟩
  | call kw routine => exact ⟨_, _, rfl, by simpa using hident routine⟩
  | other first rest second => exact ⟨first, rest, rfl, second⟩

theorem SqlStatement.effectiveFirst_tokens (s : SqlStatement) :
    effectiveFirst s.tokens = s.form.tokens.head?.map Token.upper := by
  obtain ⟨label, form, terminator⟩ := s
  obtain ⟨first, rest, hform, hsecond⟩ := form.exists_first
  cases label with
  | some label =>
    have hcolon := label.2.value_eq
    simp [SqlStatement.tokens, SqlStatement.labelTokens, hform, effectiveFirst, hcolon]
  | none =>
    simp only [SqlStatement.tokens, SqlStatement.labelTokens, hform, effectiveFirst]
    have hnot : ((first :: rest) ++ SqlStatement.endTokens ⟨none, form, terminator⟩)[1]?.map
        Token.value ≠ some ":" := by
      cases rest with
      | cons t rest => simpa using hsecond
      | nil =>
        cases terminator with
        | none => simp [SqlStatement.endTokens]
        | some mark => simp [SqlStatement.endTokens, mark.value_eq]
    simp only [Option.toList_none, List.flatMap_nil, List.nil_append]
    rw [if_neg fun h => hnot h.2]
    simp

section Facts

variable {source : String} {tokens : List Token}

theorem definedSymbols_set (h : effectiveFirst tokens = some "SET") :
    definedSymbols (parseSimple source tokens) =
      (assignmentBinding source tokens).toList.map AssignmentBinding.targetName := by
  simp [definedSymbols, parseSimple, h]

theorem definedSymbols_query
    (h : effectiveFirst tokens = some "SELECT" ∨ effectiveFirst tokens = some "WITH" ∨
      effectiveFirst tokens = some "VALUES") :
    definedSymbols (parseSimple source tokens) = (selectIntoTargets tokens).getD [] := by
  rcases h with h | h | h
  · simp [definedSymbols, parseSimple, h]
  · simp [definedSymbols, parseSimple, h]
  · simp [definedSymbols, parseSimple, h]

theorem definedSymbols_fetch (h : effectiveFirst tokens = some "FETCH") :
    definedSymbols (parseSimple source tokens) =
      (fetchBinding tokens).toList.flatMap FetchBinding.targetNames := by
  simp [definedSymbols, parseSimple, h]

theorem definedSymbols_execute (h : effectiveFirst tokens = some "EXECUTE") :
    definedSymbols (parseSimple source tokens) =
      (executeBinding source tokens).toList.flatMap DynamicExecuteBinding.intoTargetNames := by
  simp [definedSymbols, parseSimple, h]

theorem definedSymbols_other (h : effectiveFirst tokens = some word)
    (hword : word ∉ bindingWords) : definedSymbols (parseSimple source tokens) = [] := by
  simp only [bindingWords, List.mem_cons, not_or, List.not_mem_nil, not_false_eq_true, and_true]
    at hword
  simp [definedSymbols, parseSimple, h, hword]

end Facts

/-! ## Assignments -/

theorem findIdx?_append_cons {α : Type} {p : α → Bool} {before after : List α} {x : α}
    (hbefore : ∀ y ∈ before, p y = false) (hx : p x = true) :
    (before ++ x :: after).findIdx? p = some before.length := by
  rw [List.findIdx?_append, List.findIdx?_eq_none_iff.mpr hbefore]
  simp [List.findIdx?_cons, hx]

theorem assignmentBinding_target {source : String} {first second : Token} {rest : List Token}
    (hfirst : ¬ isEquals first) (hsecond : ¬ isEquals second) (hrest : ∃ t ∈ rest, isEquals t) :
    (assignmentBinding source (first :: second :: rest)).toList.map AssignmentBinding.targetName =
      [second.name] := by
  have hindex : ∃ i, rest.findIdx? (fun t => decide (t.value = "=" ∨ t.value = ":=")) = some i := by
    rw [← Option.isSome_iff_exists, List.findIdx?_isSome, List.any_eq_true]
    obtain ⟨t, ht, hequals⟩ := hrest
    exact ⟨t, ht, decide_eq_true hequals⟩
  obtain ⟨i, hi⟩ := hindex
  have hall : (first :: second :: rest).findIdx?
    (fun t => decide (t.value = "=" ∨ t.value = ":=")) =
      some (i + 2) := by
    unfold isEquals at hfirst hsecond
    rw [List.findIdx?_cons, decide_eq_false hfirst, List.findIdx?_cons, decide_eq_false hsecond, hi]
    rfl
  unfold assignmentBinding
  rw [hall]
  simp

theorem assignmentBinding_none {source : String} {tokens : List Token}
    (h : ∀ t ∈ tokens, ¬ isEquals t) : assignmentBinding source tokens = none := by
  have hnone : tokens.findIdx? (fun t => decide (t.value = "=" ∨ t.value = ":=")) = none :=
    List.findIdx?_eq_none_iff.mpr fun t ht => decide_eq_false (h t ht)
  unfold assignmentBinding
  rw [hnone]

theorem Ident.not_isEquals (i : Ident) : ¬ isEquals i.token := by
  rintro (h | h)
  · exact i.value_ne (by decide) h
  · exact i.value_ne (by decide) h

theorem Keyword.not_isEquals (k : Keyword word) (h : word ≠ "=" ∧ word ≠ ":=") :
    ¬ isEquals k.token := by
  have hfold : Text.upperString "=" = "=" ∧ Text.upperString ":=" = ":=" := by decide
  rintro (heq | heq)
  · exact k.value_ne (by rw [hfold.1]; exact h.1.symm) heq
  · exact k.value_ne (by rw [hfold.2]; exact h.2.symm) heq

/-! ## Parentheses -/

section Flat

variable {good : Token → Prop} {depth : Int} {tokens rest : List Token}

theorem Flat.append (h : Flat good depth tokens) (h' : Flat good 0 rest) :
    Flat good depth (tokens ++ rest) := by
  induction tokens generalizing depth with
  | nil =>
    obtain rfl : depth = 0 := h
    exact h'
  | cons t tokens ih =>
    simp only [List.cons_append, Flat] at h ⊢
    split
    · next hopen =>
        rw [if_pos hopen] at h
        exact ih h
    · next hopen =>
        rw [if_neg hopen] at h
        split
        · next hclose =>
            rw [if_pos hclose] at h
            exact ih h
        · next hclose =>
            rw [if_neg hclose] at h
            exact ⟨h.1, ih h.2⟩

theorem selectIntoIndices_before (h : Flat (fun t => t.upper ≠ "INTO") depth tokens) (index : Nat) :
    selectIntoIndices depth none index (tokens ++ rest) =
      selectIntoIndices 0 none (index + tokens.length) rest := by
  induction tokens generalizing depth index with
  | nil =>
    obtain rfl : depth = 0 := h
    rfl
  | cons t tokens ih =>
    have hlength : index + (t :: tokens).length = index + 1 + tokens.length := by simp; omega
    rw [hlength]
    simp only [Flat] at h
    simp only [List.cons_append, selectIntoIndices]
    split at h
    · next hopen => rw [if_pos hopen, ih h]
    · next hopen =>
        rw [if_neg hopen]
        split at h
        · next hclose => rw [if_pos hclose, ih h]
        · next hclose =>
            rw [if_neg hclose, if_neg fun hinto => h.1 hinto.1 hinto.2.1, if_neg (by simp), ih h.2]

theorem selectIntoIndices_between {into : Nat}
    (h : Flat (fun t => t.upper ≠ "FROM" ∧ t.upper ≠ "VALUES") depth tokens) (index : Nat) :
    selectIntoIndices depth (some into) index (tokens ++ rest) =
      selectIntoIndices 0 (some into) (index + tokens.length) rest := by
  induction tokens generalizing depth index with
  | nil =>
    obtain rfl : depth = 0 := h
    rfl
  | cons t tokens ih =>
    have hlength : index + (t :: tokens).length = index + 1 + tokens.length := by simp; omega
    rw [hlength]
    simp only [Flat] at h
    simp only [List.cons_append, selectIntoIndices]
    split at h
    · next hopen => rw [if_pos hopen, ih h]
    · next hopen =>
        rw [if_neg hopen]
        split at h
        · next hclose => rw [if_pos hclose, ih h]
        · next hclose =>
            have hplain : ¬ (depth = 0 ∧ (t.upper = "FROM" ∨ t.upper = "VALUES") ∧
                some into ≠ none) := fun hfrom => by
              rcases hfrom.2.1 with hfrom' | hfrom'
              · exact (h.1 hfrom.1).1 hfrom'
              · exact (h.1 hfrom.1).2 hfrom'
            rw [if_neg hclose, if_neg (by simp), if_neg hplain, ih h.2]

theorem splitTopLevel_eq_cons (separator : String) (depth : Int) (tokens : List Token) :
    splitTopLevel separator depth tokens = (splitTopLevel separator depth tokens).headD [] ::
      (splitTopLevel separator depth tokens).tail := by
  cases tokens with
  | nil => rfl
  | cons t tokens =>
    simp only [splitTopLevel]
    generalize (if t.value = "(" then depth + 1 else if t.value = ")" then depth - 1 else depth) = d
    by_cases h : t.value = separator ∧ d = 0
    · rw [if_pos h]
      rfl
    · rw [if_neg h]
      rfl

theorem splitTopLevel_flat (h : Flat (fun t => t.value ≠ ",") depth tokens) :
    splitTopLevel "," depth (tokens ++ rest) =
      (tokens ++ (splitTopLevel "," 0 rest).headD []) :: (splitTopLevel "," 0 rest).tail := by
  induction tokens generalizing depth with
  | nil =>
    obtain rfl : depth = 0 := h
    exact splitTopLevel_eq_cons "," 0 rest
  | cons t tokens ih =>
    simp only [Flat] at h
    simp only [List.cons_append, splitTopLevel]
    split at h
    · next hopen =>
        rw [if_pos hopen, if_neg (by simp [hopen]), ih h]
        rfl
    · next hopen =>
        rw [if_neg hopen]
        split at h
        · next hclose =>
            rw [if_pos hclose, if_neg (by simp [hclose]), ih h]
            rfl
        · next hclose =>
            rw [if_neg hclose, if_neg fun hsep => h.1 hsep.2 hsep.1, ih h.2]
            rfl

theorem Flat.mono {good' : Token → Prop} (hgood : ∀ t, good t → good' t)
    (h : Flat good depth tokens) :
    Flat good' depth tokens := by
  induction tokens generalizing depth with
  | nil => exact h
  | cons t tokens ih =>
    simp only [Flat] at h ⊢
    split
    · next hopen =>
        rw [if_pos hopen] at h
        exact ih h
    · next hopen =>
        rw [if_neg hopen] at h
        split
        · next hclose =>
            rw [if_pos hclose] at h
            exact ih h
        · next hclose =>
            rw [if_neg hclose] at h
            exact ⟨fun hdepth => hgood t (h.1 hdepth), ih h.2⟩

theorem Flat.cons {t : Token} (hparen : t.value ≠ "(" ∧ t.value ≠ ")") (hgood : good t)
    (h : Flat good 0 tokens) : Flat good 0 (t :: tokens) := by
  simp only [Flat]
  rw [if_neg hparen.1, if_neg hparen.2]
  exact ⟨fun _ => hgood, h⟩

end Flat

/-! ## Targets -/

theorem between_append (before : List Token) (x : Token) (middle after : List Token) :
    between (before ++ x :: (middle ++ after)) (before.length + 1)
      (before.length + 1 + middle.length) = middle := by
  have hsplit : before ++ x :: (middle ++ after) = (before ++ [x]) ++ (middle ++ after) := by simp
  have hlength : before.length + 1 = (before ++ [x]).length := by simp
  unfold between
  rw [hsplit, hlength, List.take_length_add_append, List.take_left, List.drop_left]

theorem Ident.not_paren (i : Ident) : i.token.value ≠ "(" ∧ i.token.value ≠ ")" :=
  ⟨i.value_ne (by decide), i.value_ne (by decide)⟩

theorem Target.flat_tokens (t : Target) :
    Flat (fun t => t.value ≠ "," ∧ t.upper ≠ "FROM" ∧ t.upper ≠ "VALUES") 0 t.tokens :=
  .cons t.root.not_paren ⟨t.root.value_ne (by decide), t.root.upper_ne (by decide),
    t.root.upper_ne (by decide)⟩ t.flat

theorem Targets.flat_tokens (ts : Targets) :
    Flat (fun t => t.upper ≠ "FROM" ∧ t.upper ≠ "VALUES") 0 ts.tokens := by
  have htarget (t : Target) : Flat (fun t => t.upper ≠ "FROM" ∧ t.upper ≠ "VALUES") 0 t.tokens :=
    t.flat_tokens.mono fun _ h => h.2
  refine (htarget ts.first).append ?_
  induction ts.more with
  | nil => rfl
  | cons m more ih =>
    rw [List.flatMap_cons, List.cons_append]
    refine .cons ?_ ?_ ((htarget m.2).append ih)
    · simp [m.1.value_eq]
    · simp [m.1.upper_eq]

theorem splitTopLevel_comma (comma : Mark ",") (rest : List Token) :
    splitTopLevel "," 0 (comma.token :: rest) = [] :: splitTopLevel "," 0 rest := by
  simp [splitTopLevel, comma.value_eq]

theorem Targets.split_tokens (ts : Targets) :
    splitTopLevel "," 0 ts.tokens = ts.all.map Target.tokens := by
  obtain ⟨first, more⟩ := ts
  have hflat (t : Target) : Flat (fun t => t.value ≠ ",") 0 t.tokens :=
    t.flat_tokens.mono fun _ h => h.1
  simp only [Targets.tokens, Targets.all]
  induction more generalizing first with
  | nil =>
    rw [splitTopLevel_flat (hflat first)]
    simp [splitTopLevel]
  | cons m more ih =>
    rw [splitTopLevel_flat (hflat first), List.flatMap_cons, List.cons_append]
    rw [splitTopLevel_comma, ih m.2]
    simp

theorem Targets.heads (ts : Targets) :
    ((splitTopLevel "," 0 ts.tokens).filterMap List.head?).filter Token.isIdentifier =
      ts.all.map fun t => t.root.token := by
  rw [ts.split_tokens, List.filterMap_map]
  induction ts.all with
  | nil => rfl
  | cons t all ih => simp [Target.tokens, t.root.identifier] at ih ⊢; exact ih

/-- The names of the identifiers in the accesses of the targets. -/
def Targets.accessNames (ts : Targets) : List String :=
  ts.all.flatMap fun t => identifierNames t.access

theorem identifierNames_append (xs ys : List Token) :
    identifierNames (xs ++ ys) = identifierNames xs ++ identifierNames ys := by
  simp [identifierNames]

theorem identifierNames_mark {value : String} (m : Mark value) :
    identifierNames [m.token] = [] := by
  simp [identifierNames, Token.isIdentifier, m.kind_eq]

theorem Target.mem_identifierNames {t : Target} {x : String} :
    x ∈ identifierNames t.tokens ↔ x = t.symbol ∨ x ∈ identifierNames t.access := by
  simp [identifierNames, Target.tokens, Target.symbol, t.root.identifier]

theorem mem_identifierNames_more {more : List (Mark "," × Target)} {x : String} :
    x ∈ identifierNames (more.flatMap fun t => t.1.token :: t.2.tokens) ↔
      x ∈ (more.map Prod.snd).map Target.symbol ∨
        x ∈ (more.map Prod.snd).flatMap fun t => identifierNames t.access := by
  induction more with
  | nil => simp [identifierNames]
  | cons m more ih =>
    have hcons : identifierNames (m.1.token :: m.2.tokens) = identifierNames m.2.tokens := by
      rw [← List.singleton_append, identifierNames_append, identifierNames_mark, List.nil_append]
    simp only [List.flatMap_cons, identifierNames_append, hcons, List.mem_append,
      Target.mem_identifierNames, ih, List.map_cons, List.mem_cons]
    exact or_or_or_comm

theorem Targets.mem_identifierNames {ts : Targets} {x : String} :
    x ∈ identifierNames ts.tokens ↔ x ∈ ts.symbols ∨ x ∈ ts.accessNames := by
  simp only [Targets.tokens, Targets.symbols, Targets.accessNames, Targets.all,
    identifierNames_append, List.mem_append, List.map_cons, List.flatMap_cons, List.mem_cons,
    Target.mem_identifierNames, mem_identifierNames_more]
  exact or_or_or_comm

/-! ## Each form -/

namespace SqlStatement

variable {source : String} {s : SqlStatement}

variable {rest : List Token} {targets : Targets} {execute : Keyword "EXECUTE"}
  {into : Keyword "INTO"} {using_ : Option (Keyword "USING" × List Token)}

theorem definedSymbols_equals {set : Keyword "SET"} {second : Token}
    (hform : s.form.tokens = set.token :: second :: rest) (hsecond : ¬ isEquals second)
    (hrest : ∃ t ∈ rest, isEquals t) :
    ∃ name, s.tokens[1]?.map Token.name = some name ∧
      definedSymbols (parseSimple source s.tokens) = [name] := by
  have hfirst : effectiveFirst s.tokens = some "SET" := by
    rw [s.effectiveFirst_tokens, hform]
    exact congrArg some set.upper_eq
  rw [definedSymbols_set hfirst]
  obtain ⟨t, ht, hequals⟩ := hrest
  have hset := set.not_isEquals (by decide)
  cases hlabel : s.label with
  | none =>
    have htokens : s.tokens = set.token :: second :: (rest ++ s.endTokens) := by
      simp [SqlStatement.tokens, labelTokens, hlabel, hform]
    rw [htokens, assignmentBinding_target hset hsecond ⟨t, by simp [ht], hequals⟩]
    exact ⟨_, rfl, rfl⟩
  | some label =>
    have htokens : s.tokens = label.1.token :: label.2.token ::
        (set.token :: second :: (rest ++ s.endTokens)) := by
      simp [SqlStatement.tokens, labelTokens, hlabel, hform]
    have hcolon : ¬ isEquals label.2.token := by simp [isEquals, label.2.value_eq]
    rw [htokens, assignmentBinding_target label.1.not_isEquals hcolon ⟨t, by simp [ht], hequals⟩]
    exact ⟨_, rfl, rfl⟩

theorem labelTokens_cases {t : Token} (h : t ∈ s.labelTokens) :
    (∃ i : Ident, t = i.token) ∨ ∃ m : Mark ":", t = m.token := by
  obtain ⟨l, -, ht⟩ := List.mem_flatMap.mp h
  rcases List.mem_cons.mp ht with rfl | ht
  · exact .inl ⟨_, rfl⟩
  · exact .inr ⟨_, List.mem_singleton.mp ht⟩

theorem endTokens_cases {t : Token} (h : t ∈ s.endTokens) : ∃ m : Mark ";", t = m.token := by
  obtain ⟨m, -, rfl⟩ := List.mem_map.mp h
  exact ⟨m, rfl⟩

theorem labelTokens_plain (hword : word ∈ reservedWords) :
    ∀ t ∈ s.labelTokens, t.upper ≠ word := by
  intro t ht
  rcases labelTokens_cases ht with ⟨i, rfl⟩ | ⟨m, rfl⟩
  · exact i.upper_ne hword
  · rw [m.upper_eq]
    rintro rfl
    revert hword
    decide

theorem definedSymbols_no_equals {set : Keyword "SET"}
    (hform : s.form.tokens = set.token :: rest) (hrest : ∀ t ∈ rest, ¬ isEquals t) :
    definedSymbols (parseSimple source s.tokens) = [] := by
  have hfirst : effectiveFirst s.tokens = some "SET" := by
    rw [s.effectiveFirst_tokens, hform]
    exact congrArg some set.upper_eq
  have hnone : ∀ t ∈ s.tokens, ¬ isEquals t := by
    intro t ht
    simp only [SqlStatement.tokens, hform, List.mem_append, List.mem_cons] at ht
    rcases ht with (ht | rfl | ht) | ht
    · rcases labelTokens_cases ht with ⟨i, rfl⟩ | ⟨m, rfl⟩
      · exact i.not_isEquals
      · simp [isEquals, m.value_eq]
    · exact set.not_isEquals (by decide)
    · exact hrest t ht
    · obtain ⟨m, rfl⟩ := endTokens_cases ht
      simp [isEquals, m.value_eq]
  rw [definedSymbols_set hfirst, assignmentBinding_none hnone]
  rfl

theorem flat_labelTokens (s : SqlStatement) : Flat (fun t => t.upper ≠ "INTO") 0 s.labelTokens := by
  cases hlabel : s.label with
  | none =>
    simp only [labelTokens, hlabel]
    rfl
  | some label =>
    simp only [labelTokens, hlabel, Option.toList_some, List.flatMap_cons, List.flatMap_nil,
      List.append_nil]
    refine .cons label.1.not_paren (label.1.upper_ne (by decide)) (.cons ?_ ?_ rfl)
    · simp [label.2.value_eq]
    · simp [label.2.upper_eq]

theorem selectIntoIndices_into {query : List Token}
    (hquery : Flat (fun t => t.upper ≠ "INTO") 0 query) :
    selectIntoIndices 0 none 0 (s.labelTokens ++ query ++ into.token :: (targets.tokens ++ rest)) =
      selectIntoIndices 0 (some (s.labelTokens ++ query).length)
        ((s.labelTokens ++ query).length + 1 + targets.tokens.length) rest := by
  have hparen : into.token.value ≠ "(" ∧ into.token.value ≠ ")" :=
    ⟨into.value_ne (by decide), into.value_ne (by decide)⟩
  rw [selectIntoIndices_before (s.flat_labelTokens.append hquery), Nat.zero_add, selectIntoIndices,
    if_neg hparen.1, if_neg hparen.2, if_pos ⟨rfl, into.upper_eq, rfl⟩,
    selectIntoIndices_between targets.flat_tokens]

theorem definedSymbols_selectInto {query : List Token} {from_ : Keyword "FROM"}
    (hform : s.form.tokens = query ++ into.token :: (targets.tokens ++ from_.token :: rest))
    (hquery : Flat (fun t => t.upper ≠ "INTO") 0 query)
    (hfirst : effectiveFirst s.tokens = some "SELECT" ∨ effectiveFirst s.tokens = some "WITH" ∨
      effectiveFirst s.tokens = some "VALUES") :
    definedSymbols (parseSimple source s.tokens) = targets.symbols := by
  rw [definedSymbols_query hfirst]
  have htokens : s.tokens = s.labelTokens ++ query ++ into.token ::
      (targets.tokens ++ from_.token :: (rest ++ s.endTokens)) := by
    simp [SqlStatement.tokens, hform]
  have hfrom : from_.token.value ≠ "(" ∧ from_.token.value ≠ ")" :=
    ⟨from_.value_ne (by decide), from_.value_ne (by decide)⟩
  have hlength : 0 < targets.tokens.length := by simp [Targets.tokens, Target.tokens]
  unfold selectIntoTargets
  rw [htokens, selectIntoIndices_into hquery, selectIntoIndices, if_neg hfrom.1, if_neg hfrom.2,
    if_neg (by simp), if_pos ⟨rfl, .inl from_.upper_eq, by simp⟩]
  dsimp only
  rw [if_neg (by omega), between_append, targets.heads, if_neg (by simp [Targets.all])]
  simp [Targets.symbols, Target.symbol, Function.comp_def]

theorem definedSymbols_valuesInto {query : List Token}
    (hform : s.form.tokens = query ++ into.token :: targets.tokens)
    (hquery : Flat (fun t => t.upper ≠ "INTO") 0 query)
    (hfirst : effectiveFirst s.tokens = some "VALUES") :
    definedSymbols (parseSimple source s.tokens) = [] := by
  rw [definedSymbols_query (.inr (.inr hfirst))]
  have htokens : s.tokens = s.labelTokens ++ query ++ into.token ::
      (targets.tokens ++ s.endTokens) := by
    simp [SqlStatement.tokens, hform]
  have hend (into index : Nat) : selectIntoIndices 0 (some into) index s.endTokens =
      (some into, none) := by
    cases hterminator : s.terminator with
    | none => simp [endTokens, hterminator, selectIntoIndices]
    | some mark =>
      simp [endTokens, hterminator, selectIntoIndices, mark.value_eq, mark.upper_eq]
  unfold selectIntoTargets
  rw [htokens, selectIntoIndices_into hquery, hend]
  rfl

theorem identifierNames_endTokens (s : SqlStatement) : identifierNames s.endTokens = [] := by
  cases hterminator : s.terminator with
  | none => simp [endTokens, hterminator, identifierNames]
  | some mark => simpa [endTokens, hterminator] using identifierNames_mark mark

theorem fetchBinding_into {before after : List Token} {into : Token}
    (hbefore : ∀ t ∈ before, decide (t.upper = "INTO") = false) (hinto : into.upper = "INTO")
    (hlength : 2 ≤ before.length) (hnames : identifierNames after ≠ []) :
    (fetchBinding (before ++ into :: after)).toList.flatMap FetchBinding.targetNames =
      identifierNames after := by
  have hindex : (before ++ into :: after).findIdx? (fun t => decide (t.upper = "INTO")) =
      some before.length := findIdx?_append_cons hbefore (decide_eq_true hinto)
  have hafter : 0 < after.length := by
    refine List.length_pos_iff.mpr ?_
    rintro rfl
    exact hnames rfl
  have hdrop : (before ++ into :: after).drop (before.length + 1) = after := by
    rw [List.drop_length_add_append]
    rfl
  obtain ⟨cursor, hcursor⟩ : ∃ cursor, (before ++ into :: after)[1]? = some cursor :=
    ⟨_, List.getElem?_eq_getElem (by simp; omega)⟩
  unfold fetchBinding
  rw [if_neg (by simp; omega), hindex]
  dsimp only
  rw [if_neg (by omega), hdrop, if_neg hnames, hcursor]
  simp

theorem definedSymbols_fetchInto {fetch : Keyword "FETCH"} {cursor : Ident} {more : List Token}
    (hform : s.form.tokens = fetch.token :: cursor.token :: (more ++ into.token :: targets.tokens))
    (hmore : ∀ t ∈ more, t.upper ≠ "INTO") :
    definedSymbols (parseSimple source s.tokens) = identifierNames targets.tokens := by
  have hfirst : effectiveFirst s.tokens = some "FETCH" := by
    rw [s.effectiveFirst_tokens, hform]
    exact congrArg some fetch.upper_eq
  rw [definedSymbols_fetch hfirst]
  have htokens : s.tokens = (s.labelTokens ++ fetch.token :: cursor.token :: more) ++
      into.token :: (targets.tokens ++ s.endTokens) := by
    simp [SqlStatement.tokens, hform]
  have hbefore : ∀ t ∈ s.labelTokens ++ fetch.token :: cursor.token :: more,
      decide (t.upper = "INTO") = false := by
    intro t ht
    refine decide_eq_false ?_
    simp only [List.mem_append, List.mem_cons] at ht
    rcases ht with ht | rfl | rfl | ht
    · exact labelTokens_plain (by decide) t ht
    · simp [fetch.upper_eq]
    · exact cursor.upper_ne (by decide)
    · exact hmore t ht
  have hnames : identifierNames (targets.tokens ++ s.endTokens) =
    identifierNames targets.tokens := by
    rw [identifierNames_append, s.identifierNames_endTokens, List.append_nil]
  have hroot : targets.first.symbol ∈ identifierNames targets.tokens :=
    Targets.mem_identifierNames.mpr (.inl (by simp [Targets.symbols, Targets.all]))
  rw [htokens, fetchBinding_into hbefore into.upper_eq (by simp; omega), hnames]
  rw [hnames]
  exact List.ne_nil_of_mem hroot

theorem trimSemicolon_plain {body : List Token} (h : ∀ t ∈ body, t.value ≠ ";") :
    trimSemicolon (body ++ s.endTokens) = body := by
  have hbody : body.reverse.dropWhile (·.value = ";") = body.reverse := by
    cases hreverse : body.reverse with
    | nil => rfl
    | cons t rest =>
      have ht : t.value ≠ ";" := h t (List.mem_reverse.mp (by simp [hreverse]))
      simp [List.dropWhile, ht]
  unfold trimSemicolon
  cases hterminator : s.terminator with
  | none => simp [endTokens, hterminator, hbody]
  | some mark => simp [endTokens, hterminator, mark.value_eq, hbody]

theorem Targets.plain :
    ∀ t ∈ targets.tokens, t.upper ≠ "INTO" ∧ t.upper ≠ "USING" ∧ t.value ≠ ";" := by
  have htarget (target : Target) :
      ∀ t ∈ target.tokens, t.upper ≠ "INTO" ∧ t.upper ≠ "USING" ∧ t.value ≠ ";" := by
    intro t ht
    rcases List.mem_cons.mp ht with rfl | ht
    · exact ⟨target.root.upper_ne (by decide), target.root.upper_ne (by decide),
        target.root.value_ne (by decide)⟩
    · exact target.inner t ht
  intro t ht
  rcases List.mem_append.mp ht with ht | ht
  · exact htarget _ t ht
  · obtain ⟨m, -, ht⟩ := List.mem_flatMap.mp ht
    rcases List.mem_cons.mp ht with rfl | ht
    · simp [m.1.upper_eq, m.1.value_eq]
    · exact htarget _ t ht

theorem definedSymbols_labelled_execute
    {label : Ident × Mark ":"} (hform : s.form.tokens = execute.token :: rest)
    (hlabel : s.label = some label) : definedSymbols (parseSimple source s.tokens) = [] := by
  have hfirst : effectiveFirst s.tokens = some "EXECUTE" := by
    rw [s.effectiveFirst_tokens, hform]
    exact congrArg some execute.upper_eq
  have hhead : s.tokens.head?.map Token.upper ≠ some "EXECUTE" := by
    simpa [SqlStatement.tokens, labelTokens, hlabel] using label.1.upper_ne (by decide)
  rw [definedSymbols_execute hfirst, executeBinding, if_pos (.inr hhead)]
  rfl

/-- The targets of an `EXECUTE`. -/
theorem definedSymbols_plain_execute {name : Token}
    (hform : s.form.tokens = execute.token :: name :: rest) (hlabel : s.label = none)
    (hplain : ∀ t ∈ name :: rest, t.value ≠ ";") :
    definedSymbols (parseSimple source s.tokens) =
      if rest ≠ [] ∧ name.upper = "IMMEDIATE" then []
      else executeTargets (execute.token :: name :: rest) := by
  have hfirst : effectiveFirst s.tokens = some "EXECUTE" := by
    rw [s.effectiveFirst_tokens, hform]
    exact congrArg some execute.upper_eq
  have htokens : s.tokens = (execute.token :: name :: rest) ++ s.endTokens := by
    simp [SqlStatement.tokens, labelTokens, hlabel, hform]
  have htrim : trimSemicolon s.tokens = execute.token :: name :: rest := by
    rw [htokens]
    refine trimSemicolon_plain fun t ht => ?_
    rcases List.mem_cons.mp ht with rfl | ht
    · exact execute.value_ne (by decide)
    · exact hplain t ht
  have hhead : ¬ (s.tokens.length < 2 ∨ s.tokens.head?.map Token.upper ≠ some "EXECUTE") := by
    simp [htokens, execute.upper_eq]
  rw [definedSymbols_execute hfirst, executeBinding, if_neg hhead]
  dsimp only
  rw [htrim]
  by_cases himmediate : rest ≠ [] ∧ name.upper = "IMMEDIATE"
  · have hlength : 3 ≤ (execute.token :: name :: rest).length ∧
        (execute.token :: name :: rest)[1]?.map Token.upper = some "IMMEDIATE" := by
      have := List.length_pos_iff.mpr himmediate.1
      exact ⟨by simp; omega, congrArg some himmediate.2⟩
    rw [if_pos himmediate, if_pos hlength]
    rfl
  · have hlength : ¬ (3 ≤ (execute.token :: name :: rest).length ∧
        (execute.token :: name :: rest)[1]?.map Token.upper = some "IMMEDIATE") := by
      rintro ⟨hlength, hname⟩
      refine himmediate ⟨?_, Option.some.inj hname⟩
      rintro rfl
      simp at hlength
    rw [if_neg himmediate, if_neg hlength]
    simp

/-- They stand between `INTO` and `USING`. -/
theorem executeTargets_into {before targets after : List Token} {into : Token}
    (hbefore : ∀ t ∈ before, decide (t.upper = "INTO") = false ∧ decide (t.upper = "USING") = false)
    (hinto : into.upper = "INTO") (htargets : ∀ t ∈ targets, decide (t.upper = "USING") = false)
    (hafter : ∀ t ∈ after.head?, t.upper = "USING") :
    executeTargets (before ++ into :: (targets ++ after)) = identifierNames targets := by
  have hindex : (before ++ into :: (targets ++ after)).findIdx?
    (fun t => decide (t.upper = "INTO")) =
      some before.length :=
    findIdx?_append_cons (fun t ht => (hbefore t ht).1) (decide_eq_true hinto)
  have hplain : ∀ t ∈ before ++ into :: targets, decide (t.upper = "USING") = false := by
    intro t ht
    rcases List.mem_append.mp ht with ht | ht
    · exact (hbefore t ht).2
    · rcases List.mem_cons.mp ht with rfl | ht
      · simp [hinto]
      · exact htargets t ht
  have hsplit : before ++ into :: (targets ++ after) = (before ++ into :: targets) ++
    after := by simp
  unfold executeTargets
  rw [hindex]
  dsimp only
  cases after with
  | nil =>
    have husing : (before ++ into :: (targets ++ [])).findIdx?
      (fun t => decide (t.upper = "USING")) =
        none := by
      rw [hsplit, List.append_nil]
      exact List.findIdx?_eq_none_iff.mpr hplain
    have hlength : (before ++ into :: (targets ++ [])).length =
        before.length + 1 + targets.length := by
      simp
      omega
    rw [husing]
    dsimp only
    rw [hlength, between_append]
  | cons u after =>
    have husing : (before ++ into :: (targets ++ u :: after)).findIdx?
        (fun t => decide (t.upper = "USING")) = some (before.length + 1 + targets.length) := by
      rw [hsplit, findIdx?_append_cons hplain (decide_eq_true (hafter u (by simp)))]
      simp
      omega
    rw [husing]
    dsimp only
    rw [if_pos (by omega), between_append]

theorem mem_usingTokens {t : Token}
    (hplain : ∀ u ∈ using_, ∀ t ∈ u.2, t.upper ≠ "INTO" ∧ t.value ≠ ";")
    (ht : t ∈ using_.toList.flatMap fun u => u.1.token :: u.2) :
    t.upper ≠ "INTO" ∧ t.value ≠ ";" := by
  obtain ⟨u, hu, ht⟩ := List.mem_flatMap.mp ht
  rcases List.mem_cons.mp ht with rfl | ht
  · exact ⟨by simp [u.1.upper_eq], u.1.value_ne (by decide)⟩
  · exact hplain u (Option.mem_toList.mp hu) t ht

theorem definedSymbols_executeInto {name : Ident}
    (hform : s.form.tokens = execute.token :: name.token :: (into.token :: targets.tokens ++
      using_.toList.flatMap fun u => u.1.token :: u.2)) (hlabel : s.label = none)
    (hplain : ∀ u ∈ using_, ∀ t ∈ u.2, t.upper ≠ "INTO" ∧ t.value ≠ ";") :
    definedSymbols (parseSimple source s.tokens) = identifierNames targets.tokens := by
  have himmediate : name.token.upper ≠ "IMMEDIATE" := name.upper_ne (by decide)
  have hbefore : ∀ t ∈ [execute.token, name.token],
      decide (t.upper = "INTO") = false ∧ decide (t.upper = "USING") = false := by
    intro t ht
    simp only [List.mem_cons, List.not_mem_nil, or_false] at ht
    rcases ht with rfl | rfl
    · simp [execute.upper_eq]
    · exact ⟨decide_eq_false (name.upper_ne (by decide)),
        decide_eq_false (name.upper_ne (by decide))⟩
  have hafter : ∀ t ∈ (using_.toList.flatMap fun u => u.1.token :: u.2).head?,
    t.upper = "USING" := by
    cases using_ with
    | none => simp
    | some u => simp [u.1.upper_eq]
  rw [definedSymbols_plain_execute hform hlabel, if_neg fun h => himmediate h.2]
  · exact executeTargets_into hbefore into.upper_eq
      (fun t ht => decide_eq_false (Targets.plain t ht).2.1) hafter
  · intro t ht
    rcases List.mem_cons.mp ht with rfl | ht
    · exact name.value_ne (by decide)
    · rcases List.mem_append.mp ht with ht | ht
      · rcases List.mem_cons.mp ht with rfl | ht
        · exact into.value_ne (by decide)
        · exact (Targets.plain t ht).2.2
      · exact (mem_usingTokens hplain ht).2

theorem definedSymbols_executeUsing {name : Ident}
    (hform : s.form.tokens = execute.token :: name.token ::
      using_.toList.flatMap fun u => u.1.token :: u.2)
    (hplain : ∀ u ∈ using_, ∀ t ∈ u.2, t.upper ≠ "INTO" ∧ t.value ≠ ";") :
    definedSymbols (parseSimple source s.tokens) = [] := by
  cases hlabel : s.label with
  | some label => exact definedSymbols_labelled_execute hform hlabel
  | none =>
    have hnone : (execute.token :: name.token ::
        using_.toList.flatMap fun u => u.1.token :: u.2).findIdx?
          (fun t => decide (t.upper = "INTO")) = none := by
      refine List.findIdx?_eq_none_iff.mpr fun t ht => decide_eq_false ?_
      simp only [List.mem_cons] at ht
      rcases ht with rfl | rfl | ht
      · simp [execute.upper_eq]
      · exact name.upper_ne (by decide)
      · exact (mem_usingTokens hplain ht).1
    have himmediate : name.token.upper ≠ "IMMEDIATE" := name.upper_ne (by decide)
    rw [definedSymbols_plain_execute hform hlabel, if_neg fun h => himmediate h.2, executeTargets,
      hnone]
    intro t ht
    rcases List.mem_cons.mp ht with rfl | ht
    · exact name.value_ne (by decide)
    · exact (mem_usingTokens hplain ht).2

theorem definedSymbols_immediate {immediate : Keyword "IMMEDIATE"}
    {text : List Token} (hform : s.form.tokens = execute.token :: immediate.token :: text)
    (htext : text ≠ []) (hplain : ∀ t ∈ text, t.value ≠ ";") :
    definedSymbols (parseSimple source s.tokens) = [] := by
  cases hlabel : s.label with
  | some label => exact definedSymbols_labelled_execute hform hlabel
  | none =>
    rw [definedSymbols_plain_execute hform hlabel, if_pos ⟨htext, immediate.upper_eq⟩]
    intro t ht
    rcases List.mem_cons.mp ht with rfl | ht
    · exact immediate.value_ne (by decide)
    · exact hplain t ht

/-! ## When the facts are complete -/

/-- For each form, when the extractors see what the statement assigns. A `SET` must write only what
its second token names; the identifiers after an `INTO` must all be among the targets, also those in
an index or a field reference; and the rest has no extractor. -/
def Covered (s : SqlStatement) : Prop :=
  match s.form with
  | .set _ assignments => ∀ x ∈ assignments.symbols, s.tokens[1]?.map Token.name = some x
  | .setRow _ _ targets _ _ _ _ => ∀ x ∈ targets.symbols, s.tokens[1]?.map Token.name = some x
  | .setRegister _ _ rest => ∀ t ∈ rest, ¬ isEquals t
  | .selectInto _ _ _ _ _ _ _ _ _ => True
  | .valuesInto _ _ _ _ _ _ => False
  | .fetch _ _ _ _ targets _ => ∀ x ∈ targets.accessNames, x ∈ targets.symbols
  | .execute _ _ into _ _ =>
    ∀ i ∈ into, s.label = none ∧ ∀ x ∈ i.2.accessNames, x ∈ i.2.symbols
  | .executeImmediate _ _ _ _ _ => True
  | .getDiagnostics _ _ _ _ => False
  | .call _ _ _ arguments => ∀ a ∈ arguments, a.symbol? = none
  | .other _ _ _ _ => True

/-- The `DEF` facts at the node of the statement are exactly what it assigns. -/
def FactsComplete (source : String) (s : SqlStatement) : Prop :=
  ∀ x, x ∈ definedSymbols (parseSimple source s.tokens) ↔ x ∈ s.form.assigned

theorem factsComplete_singleton {name : String}
    (hsecond : s.tokens[1]?.map Token.name = some name)
    (hdefined : definedSymbols (parseSimple source s.tokens) = [name])
    (hassigned : s.form.assigned ≠ []) :
    FactsComplete source s ↔ ∀ x ∈ s.form.assigned, s.tokens[1]?.map Token.name = some x := by
  simp only [FactsComplete, hdefined, hsecond, List.mem_singleton, Option.some.injEq]
  constructor
  · exact fun h x hx => ((h x).mpr hx).symm
  · intro h x
    refine ⟨?_, fun hx => (h x hx).symm⟩
    rintro rfl
    obtain ⟨y, hy⟩ := List.exists_mem_of_ne_nil _ hassigned
    rw [h y hy]
    exact hy

theorem factsComplete_nil (hdefined : definedSymbols (parseSimple source s.tokens) = []) :
    FactsComplete source s ↔ s.form.assigned = [] := by
  simp only [FactsComplete, hdefined, List.not_mem_nil, false_iff]
  exact List.eq_nil_iff_forall_not_mem.symm

theorem factsComplete_targets
    (hdefined : definedSymbols (parseSimple source s.tokens) = identifierNames targets.tokens)
    (hassigned : s.form.assigned = targets.symbols) :
    FactsComplete source s ↔ ∀ x ∈ targets.accessNames, x ∈ targets.symbols := by
  simp only [FactsComplete, hdefined, hassigned, Targets.mem_identifierNames, or_iff_left_iff_imp]

theorem factsComplete_execute {name : Ident} {into : Option (Keyword "INTO" × Targets)}
    {plain : ∀ u ∈ using_, ∀ t ∈ u.2, t.upper ≠ "INTO" ∧ t.value ≠ ";"}
    (hform : s.form = .execute execute name into using_ plain) : FactsComplete source s ↔
      ∀ i ∈ into, s.label = none ∧ ∀ x ∈ i.2.accessNames, x ∈ i.2.symbols := by
  cases into with
  | none =>
    have htokens : s.form.tokens = execute.token :: name.token ::
        using_.toList.flatMap fun u => u.1.token :: u.2 := by rw [hform]; rfl
    rw [factsComplete_nil (definedSymbols_executeUsing htokens plain), hform]
    simp [SqlForm.assigned]
  | some i =>
    obtain ⟨into, targets⟩ := i
    have htokens : s.form.tokens = execute.token :: name.token :: (into.token :: targets.tokens ++
        using_.toList.flatMap fun u => u.1.token :: u.2) := by simp [hform, SqlForm.tokens]
    have hassigned : s.form.assigned = targets.symbols := by simp [hform, SqlForm.assigned]
    cases hlabel : s.label with
    | some label =>
      rw [factsComplete_nil (definedSymbols_labelled_execute htokens hlabel), hassigned]
      simp [Targets.symbols, Targets.all]
    | none =>
      rw [factsComplete_targets (definedSymbols_executeInto htokens hlabel plain) hassigned]
      simp

theorem factsComplete_set {kw : Keyword "SET"} {assignments : Assignments}
    (hform : s.form = .set kw assignments) : FactsComplete source s ↔
      ∀ x ∈ assignments.symbols, s.tokens[1]?.map Token.name = some x := by
  have htokens : s.form.tokens = kw.token :: assignments.first.target.root.token ::
      (assignments.first.target.access ++ assignments.first.equals ::
        (assignments.first.expression ++ assignments.more.flatMap fun a =>
          a.1.token :: a.2.tokens)) := by
    simp [hform, SqlForm.tokens, Assignments.tokens, Assignment.tokens, Target.tokens]
  have hassigned : s.form.assigned = assignments.symbols := by rw [hform]; rfl
  obtain ⟨name, hsecond, hdefined⟩ := definedSymbols_equals htokens
    assignments.first.target.root.not_isEquals
    ⟨assignments.first.equals, by simp, assignments.first.sign⟩
  rw
    [factsComplete_singleton hsecond hdefined (by simp [hassigned, Assignments.symbols]), hassigned]

theorem factsComplete_setRow {kw : Keyword "SET"} {opening : Mark "("} {targets : Targets}
    {closing : Mark ")"} {equals : Token} {sign : isEquals equals} {row : List Token}
    (hform : s.form = .setRow kw opening targets closing equals sign row) : FactsComplete source s ↔
      ∀ x ∈ targets.symbols, s.tokens[1]?.map Token.name = some x := by
  have htokens : s.form.tokens =
      kw.token :: opening.token :: (targets.tokens ++ closing.token :: equals :: row) := by
    rw [hform]
    rfl
  have hassigned : s.form.assigned = targets.symbols := by rw [hform]; rfl
  obtain ⟨name, hsecond, hdefined⟩ := definedSymbols_equals htokens
    (by simp [isEquals, opening.value_eq]) ⟨equals, by simp, sign⟩
  rw [factsComplete_singleton hsecond hdefined (by simp [hassigned, Targets.symbols, Targets.all]),
    hassigned]

theorem factsComplete_setRegister {kw : Keyword "SET"} {register : Ident}
    (hform : s.form = .setRegister kw register rest) :
    FactsComplete source s ↔ ∀ t ∈ rest, ¬ isEquals t := by
  have htokens : s.form.tokens = kw.token :: register.token :: rest := by
    rw [hform]
    rfl
  have hassigned : s.form.assigned = [] := by rw [hform]; rfl
  by_cases hrest : ∃ t ∈ rest, isEquals t
  · obtain ⟨name, -, hdefined⟩ : ∃ name, _ ∧
      definedSymbols (parseSimple source s.tokens) = [name] :=
      definedSymbols_equals htokens register.not_isEquals hrest
    have hfails : ¬ FactsComplete source s := fun h => by
      have hname := (h name).mp (by simp [hdefined])
      simp [hassigned] at hname
    obtain ⟨t, ht, hequals⟩ := hrest
    exact ⟨fun h => absurd h hfails, fun h => absurd hequals (h t ht)⟩
  · have hnone : ∀ t ∈ rest, ¬ isEquals t := fun t ht h => hrest ⟨t, ht, h⟩
    have hall : ∀ t ∈ register.token :: rest, ¬ isEquals t := by
      intro t ht
      rcases List.mem_cons.mp ht with rfl | ht
      · exact register.not_isEquals
      · exact hnone t ht
    rw [factsComplete_nil (definedSymbols_no_equals htokens hall)]
    exact ⟨fun _ => hnone, fun _ => hassigned⟩

theorem effectiveFirst_of_tokens {first : Token}
    (htokens : s.form.tokens = first :: rest) (hfirst : first.upper = word) :
    effectiveFirst s.tokens = some word := by
  rw [s.effectiveFirst_tokens, htokens]
  exact congrArg some hfirst

/-- The `DEF` facts of a statement are complete exactly when it is covered. -/
theorem factsComplete_iff_covered (source : String) (s : SqlStatement) :
    FactsComplete source s ↔ s.Covered := by
  unfold Covered
  split
  · next hform => exact factsComplete_set hform
  · next hform => exact factsComplete_setRow hform
  · next hform => exact factsComplete_setRegister hform
  · next select query into targets from_ rest first second flat hform =>
      have htokens : s.form.tokens = (select :: query) ++ into.token ::
          (targets.tokens ++ from_.token :: rest) := by rw [hform]; rfl
      have hfirst : effectiveFirst s.tokens = some select.upper :=
        effectiveFirst_of_tokens htokens rfl
      have hdefined : definedSymbols (parseSimple source s.tokens) = targets.symbols := by
        refine definedSymbols_selectInto htokens flat ?_
        rcases first with first | first
        · exact .inl (by rw [hfirst, first])
        · exact .inr (.inl (by rw [hfirst, first]))
      refine iff_of_true (fun x => ?_) trivial
      rw [hdefined, hform]
      rfl
  · next values row into targets second flat hform =>
      have htokens : s.form.tokens = (values.token :: row) ++ into.token :: targets.tokens := by
        rw [hform]
        rfl
      have hflat : Flat (fun t => t.upper ≠ "INTO") 0 (values.token :: row) :=
        .cons ⟨values.value_ne (by decide), values.value_ne (by decide)⟩ (by simp [values.upper_eq])
          flat
      have hfirst := effectiveFirst_of_tokens htokens values.upper_eq
      rw [factsComplete_nil (definedSymbols_valuesInto htokens hflat hfirst), hform]
      simp [SqlForm.assigned, Targets.symbols, Targets.all]
  · next fetch cursor more into targets cursorOnly hform =>
      have htokens : s.form.tokens = fetch.token :: cursor.token ::
          (more ++ into.token :: targets.tokens) := by rw [hform]; rfl
      exact factsComplete_targets (definedSymbols_fetchInto htokens cursorOnly) (by rw [hform]; rfl)
  · next hform => exact factsComplete_execute hform
  · next execute immediate text nonempty plain hform =>
      have htokens : s.form.tokens = execute.token :: immediate.token :: text := by rw [hform]; rfl
      rw [factsComplete_nil (definedSymbols_immediate htokens nonempty plain), hform]
      simp [SqlForm.assigned]
  · next get diagnostics area assignments hform =>
      have htokens : s.form.tokens = get.token :: diagnostics.token ::
        (area ++ assignments.tokens) := by
        rw [hform]
        rfl
      have hfirst := effectiveFirst_of_tokens htokens get.upper_eq
      rw [factsComplete_nil (definedSymbols_other hfirst (by decide)), hform]
      simp [SqlForm.assigned, Assignments.symbols]
  · next call routine rest arguments hform =>
      have htokens : s.form.tokens = call.token :: routine.token ::
          (rest ++ arguments.flatMap Argument.tokens) := by rw [hform]; rfl
      have hfirst := effectiveFirst_of_tokens htokens call.upper_eq
      rw [factsComplete_nil (definedSymbols_other hfirst (by decide)), hform]
      exact List.filterMap_eq_nil_iff
  · next first rest second plain hform =>
      have htokens : s.form.tokens = first :: rest := by rw [hform]; rfl
      have hfirst := effectiveFirst_of_tokens htokens rfl
      rw [factsComplete_nil (definedSymbols_other hfirst plain), hform]
      simp [SqlForm.assigned]

end SqlStatement

/-! ## A `SET` with two targets -/

def wordToken (w : String) (offset : Nat) : Token := ⟨.word, w, w, offset⟩

def markToken (m : String) (offset : Nat) : Token := ⟨.symbol, m, m, offset⟩

/-- `name = value` -/
def assignmentOf (name : String) (offset : Nat) (value : String)
    (hname : ∃ c cs, name.toList = c :: cs ∧ (isWordStart c = true ∨ c = '"'))
    (hfree : name ∉ reservedWords) : Assignment where
  target := ⟨⟨wordToken name offset, rfl, hname, hfree⟩, [], by simp, rfl⟩
  equals := markToken "=" (offset + 2)
  sign := .inl rfl
  expression := [⟨.number, value, value, offset + 4⟩]

/-- `SET A = 1, B = 2;` -/
def setTwo : SqlStatement where
  label := none
  form := .set ⟨wordToken "SET" 0, rfl, by decide⟩
    { first := assignmentOf "A" 4 "1" ⟨_, _, rfl, .inl (by decide)⟩ (by decide)
      more := [(⟨markToken "," 9, rfl, rfl, rfl⟩,
        assignmentOf "B" 11 "2" ⟨_, _, rfl, .inl (by decide)⟩ (by decide))] }
  terminator := some ⟨markToken ";" 16, rfl, rfl, rfl⟩

/-- Only the first target has a `DEF` fact. -/
theorem second_target_has_no_fact :
    setTwo.tokens = (scan "SET A = 1, B = 2;").tokens ∧ setTwo.form.assigned = ["A", "B"] ∧
      definedSymbols (parseSimple "SET A = 1, B = 2;" setTwo.tokens) = ["A"] ∧
      ¬ SqlStatement.FactsComplete "SET A = 1, B = 2;" setTwo := by
  have hdefined : definedSymbols (parseSimple "SET A = 1, B = 2;" setTwo.tokens) = ["A"] := by
    decide +kernel
  refine ⟨by decide +kernel, by decide +kernel, hdefined, fun h => ?_⟩
  have hB := (h "B").mpr (by decide +kernel)
  simp [hdefined] at hB

end AtlasDb.Parsing
