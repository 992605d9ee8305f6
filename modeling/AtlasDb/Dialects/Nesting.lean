import AtlasDb.Dialects.Regions

/-!
# Well nested statements

The statements of the dialects that close a region with an `END` of its own, as trees; the
statements a tree stands for; and the node of the arm that encloses each of them. The tracker gets
all of them right for the trees in which no block without an `EXCEPTION` section stands directly in
an arm of one.
-/

namespace AtlasDb.Dialects

open Core

/-! ## Trees -/

/-- A statement that opens and closes nothing. -/
structure SimpleStatement where
  statement : ClassifiedStatement
  ordinary : statement.kind ∉ [SemanticNodeKind.condition, .case_, .loop, .errorHandler, .block]

/-- The text of a `BEGIN`. -/
structure BeginText where
  upper : List Char
  begins : startsWith "BEGIN" upper = true
  ordinary : startsWithAny ["BEGIN TRY", "BEGIN CATCH", "BEGIN TRAN"] upper = false

/-- The text of an `END` that says what it closes. -/
structure EndText (form : EndForm) where
  upper : List Char
  ends : startsWith "END" upper = true
  reads : endForm upper = form

/-- How an arm begins, by the region it is an arm of. -/
inductive ArmHeader : RegionKind → Type where
  | elsif (condition : List Char) : ArmHeader .if_
  | elseif (condition : List Char) : ArmHeader .if_
  | else_ : ArmHeader .if_
  | when_ (condition : List Char) : ArmHeader .case_
  | caseElse : ArmHeader .case_
  | handler (condition : List Char) : ArmHeader .handler
  | handlerInCase (condition : List Char) : ArmHeader .handler

mutual

/-- A statement with what is nested in it. The end of a loop is explicit in the sense of `endForm`,
which an `END FOR` is not. -/
inductive Stmt where
  | simple (s : SimpleStatement)
  | ifElse (condition : List Char) (body : Stmts) (arms : Arms .if_)
    (close : EndText (.explicit .if_))
  | caseOf (operand : Option (List Char)) (arms : Arms .case_) (close : EndText (.explicit .case_))
  | loop (condition : Option (List Char)) (upper : List Char) (body : Stmts)
      (close : EndText (.explicit .loop))
  | block (begin : BeginText) (body : Stmts) (label : Option (List Char))
  | exceptionBlock (begin : BeginText) (body : Stmts) (arms : Arms .handler)
      (label : Option (List Char))
  | tryCatch (body handler : Stmts)
  | declaredHandler (declaration : List Char) (begin : BeginText) (body : Stmts)
      (label : Option (List Char))

inductive Stmts where
  | nil
  | cons (first : Stmt) (rest : Stmts)

/-- The arms of a region after what it begins with. -/
inductive Arms : RegionKind → Type where
  | nil {kind : RegionKind} : Arms kind
  | cons {kind : RegionKind} (header : ArmHeader kind) (body : Stmts) (rest : Arms kind) : Arms kind

end

/-! ## The statements of a tree -/

def ArmHeader.statement {kind : RegionKind} : ArmHeader kind → ClassifiedStatement
  | .elsif condition => ⟨.condition, .elsif, some condition, "ELSIF ".toList ++ condition⟩
  | .elseif condition => ⟨.condition, .elseif, some condition, "ELSEIF ".toList ++ condition⟩
  | .else_ => ⟨.condition, .else_, some "ELSE".toList, "ELSE".toList⟩
  | .when_ condition => ⟨.condition, .when_, some condition, "WHEN ".toList ++ condition⟩
  | .caseElse => ⟨.condition, .else_, some "ELSE".toList, "ELSE".toList⟩
  | .handler condition => ⟨.errorHandler, .none, some condition, "WHEN ".toList ++ condition⟩
  -- The classifier takes it for a branch when a `CASE` is open further out.
  | .handlerInCase condition => ⟨.condition, .when_, some condition, "WHEN ".toList ++ condition⟩

def ifStatement (condition : List Char) : ClassifiedStatement :=
  ⟨.condition, .if_, some condition, "IF ".toList ++ condition⟩

def caseStatement (operand : Option (List Char)) : ClassifiedStatement :=
  ⟨.case_, .none, operand, "CASE ".toList ++ operand.getD []⟩

def loopStatement (condition : Option (List Char)) (upper : List Char) : ClassifiedStatement :=
  ⟨.loop, .none, condition, upper⟩

def blockStatement (upper : List Char) : ClassifiedStatement := ⟨.block, .none, none, upper⟩

def handlerStatement (upper : List Char) : ClassifiedStatement :=
  ⟨.errorHandler, .none, none, upper⟩

/-- The end of a block, with its label. -/
def blockEnd (label : Option (List Char)) : List Char :=
  "END".toList ++ label.elim [] (' ' :: ·)

mutual

def Stmt.render : Stmt → List ClassifiedStatement
  | .simple s => [s.statement]
  | .ifElse condition body arms close =>
    ifStatement condition :: (body.render ++ (arms.render ++ [blockStatement close.upper]))
  | .caseOf operand arms close =>
    caseStatement operand :: (arms.render ++ [blockStatement close.upper])
  | .loop condition upper body close =>
    loopStatement condition upper :: (body.render ++ [blockStatement close.upper])
  | .block begin body label =>
    blockStatement begin.upper :: (body.render ++ [blockStatement (blockEnd label)])
  | .exceptionBlock begin body arms label =>
    blockStatement begin.upper :: (body.render ++
      (handlerStatement "EXCEPTION".toList :: (arms.render ++ [blockStatement (blockEnd label)])))
  | .tryCatch body handler =>
    handlerStatement "BEGIN TRY".toList :: (body.render ++
      (blockStatement "END TRY".toList :: handlerStatement "BEGIN CATCH".toList ::
        (handler.render ++ [blockStatement "END CATCH".toList])))
  | .declaredHandler declaration begin body label =>
    handlerStatement ("DECLARE ".toList ++ declaration) :: blockStatement begin.upper ::
      (body.render ++ [blockStatement (blockEnd label)])

def Stmts.render : Stmts → List ClassifiedStatement
  | .nil => []
  | .cons first rest => first.render ++ rest.render

def Arms.render : {kind : RegionKind} → Arms kind → List ClassifiedStatement
  | _, .nil => []
  | _, .cons header body rest => header.statement :: (body.render ++ rest.render)

end

/-! ## The arms that enclose them -/

def Stmt.size (s : Stmt) : Nat := s.render.length
def Stmts.size (s : Stmts) : Nat := s.render.length
def Arms.size {kind : RegionKind} (arms : Arms kind) : Nat := arms.render.length

/-- The node of the last arm, when that of the arm before them is `active`. -/
def Arms.last {kind : RegionKind} (active node : Nat) : Arms kind → Nat
  | .nil => active
  | .cons _ body rest => rest.last node (node + 1 + body.size)

mutual

/-- The arm that encloses each statement, when the first one has the number `node` and `parent`
encloses them all. An arm begins in its region as a whole, and a region ends in its last arm. -/
def Stmt.parents (node : Nat) (parent : Option Nat) : Stmt → List (Option Nat)
  | .simple _ => [parent]
  | .ifElse _ body arms _ =>
    parent :: (body.parents (node + 1) (some node) ++
      (arms.parents node (node + 1 + body.size) ++
        [some (arms.last node (node + 1 + body.size))]))
  | .caseOf _ arms _ =>
    parent :: (arms.parents node (node + 1) ++ [some (arms.last node (node + 1))])
  | .loop _ _ body _ => parent :: (body.parents (node + 1) (some node) ++ [some node])
  | .block _ body _ => parent :: (body.parents (node + 1) (some node) ++ [some node])
  | .exceptionBlock _ body arms _ =>
    parent :: (body.parents (node + 1) (some node) ++
      (some node :: (arms.parents (node + 1 + body.size) (node + 1 + body.size + 1) ++
        [some (arms.last (node + 1 + body.size) (node + 1 + body.size + 1))])))
  | .tryCatch body handler =>
    parent :: (body.parents (node + 1) (some node) ++
      (some node :: some node ::
        (handler.parents (node + 1 + body.size + 1 + 1) (some (node + 1 + body.size + 1)) ++
          [some (node + 1 + body.size + 1)])))
  | .declaredHandler _ _ body _ =>
    parent :: some node :: (body.parents (node + 1 + 1) (some (node + 1)) ++ [some (node + 1)])

def Stmts.parents (node : Nat) (parent : Option Nat) : Stmts → List (Option Nat)
  | .nil => []
  | .cons first rest => first.parents node parent ++ rest.parents (node + first.size) parent

def Arms.parents (root node : Nat) : {kind : RegionKind} → Arms kind → List (Option Nat)
  | _, .nil => []
  | _, .cons _ body rest =>
    some root :: (body.parents (node + 1) (some node) ++ rest.parents root (node + 1 + body.size))

end

/-! ## What the tracker follows -/

/-- An `END` with the label closes the block and no more. A label that reads like the end of another
region closes everything up to it: nothing more only when nothing else is open. -/
def LabelFits (top : Option RegionKind) (label : Option (List Char)) : Prop :=
  match endForm (blockEnd label) with
  | .plain => True
  | .explicit _ => top = none
  | .endTry => False

mutual

/-- The tracker follows the tree when the innermost open region is `top`. -/
def Stmt.Tracked (top : Option RegionKind) : Stmt → Prop
  | .simple _ => True
  | .ifElse _ body arms _ => body.Tracked (some .if_) ∧ arms.Tracked
  | .caseOf _ arms _ => arms.Tracked
  | .loop _ _ body _ => body.Tracked (some .loop)
  -- The end of such a block in a handler closes the handler too.
  | .block _ body label =>
    body.Tracked (some .block) ∧ LabelFits top label ∧ top ≠ some .handler
  | .exceptionBlock _ body arms label =>
    body.Tracked (some .block) ∧ arms.Tracked ∧ LabelFits top label
  | .tryCatch body handler => body.Tracked (some .tryCatch) ∧ handler.Tracked (some .tryCatch)
  | .declaredHandler _ _ body label => body.Tracked (some .block) ∧ LabelFits top label

def Stmts.Tracked (top : Option RegionKind) : Stmts → Prop
  | .nil => True
  | .cons first rest => first.Tracked top ∧ rest.Tracked top

def Arms.Tracked : {kind : RegionKind} → Arms kind → Prop
  | _, .nil => True
  | kind, .cons _ body rest => body.Tracked (some kind) ∧ rest.Tracked

end

/-! ## Single statements -/

section Statements

variable {dialect : DialectId} {next : Option (List Char)} {node : Nat} {frames : List RegionFrame}

theorem SimpleStatement.parentFor (s : SimpleStatement) :
    Dialects.parentFor s.statement frames = currentParent frames := by
  have hordinary := s.ordinary
  unfold Dialects.parentFor
  split
  · next hkind => simp [hkind] at hordinary
  · next hkind => simp [hkind] at hordinary
  · rfl

theorem SimpleStatement.afterNode (s : SimpleStatement) :
    Dialects.afterNode dialect node s.statement next frames =
      closeSingle dialect s.statement.kind frames := by
  have hordinary := s.ordinary
  unfold Dialects.afterNode
  dsimp only
  split
  · next hkind => simp [hkind] at hordinary
  · next hkind => simp [hkind] at hordinary
  · next hkind => simp [hkind] at hordinary
  · next hkind => simp [hkind] at hordinary
  · next hkind => simp [hkind] at hordinary
  · rfl

def ifFrame (dialect : DialectId) (node : Nat) (condition : List Char) (next : Option (List Char)) :
    RegionFrame :=
  { kind := .if_, rootRef := node, activeRef := node, conditionText := some condition,
    singleStatement := dialect = .sqlserverTsql && !nextStartsWith "BEGIN" next }

def loopFrame (dialect : DialectId) (node : Nat) (condition : Option (List Char))
    (upper : List Char) (next : Option (List Char)) : RegionFrame :=
  { kind := .loop, rootRef := node, activeRef := node,
      conditionText := orText condition (some upper),
    singleStatement := dialect = .sqlserverTsql && !nextStartsWith "BEGIN" next }

theorem afterNode_if (condition : List Char) :
    (Dialects.afterNode dialect node (ifStatement condition) next frames).frames =
      ifFrame dialect node condition next :: frames := rfl

theorem afterNode_loop (condition : Option (List Char)) (upper : List Char) :
    (Dialects.afterNode dialect node (loopStatement condition upper) next frames).frames =
      loopFrame dialect node condition upper next :: frames := rfl

theorem closeSingle_frames (hdialect : dialect ≠ .sqlserverTsql) (kind : SemanticNodeKind) :
    (closeSingle dialect kind frames).frames = frames := by
  unfold closeSingle
  split
  · rfl
  · rw [if_neg fun h => hdialect h.1]

variable {upper : List Char} {kind : RegionKind} {frame : RegionFrame}

theorem startsWith_begin_of_end (h : startsWith "END" upper = true) :
    startsWith "BEGIN" upper = false := by
  obtain ⟨rest, rfl⟩ := List.isPrefixOf_iff_prefix.mp h
  rfl

theorem afterNode_begin (begin : BeginText) :
    (afterNode dialect node (blockStatement begin.upper) next frames).frames =
      { kind := .block, rootRef := node, activeRef := node, ownerKind := topKind frames,
        ownerRef := frames.head?.map RegionFrame.rootRef } :: frames := by
  simp [afterNode, blockStatement, begin.begins, begin.ordinary, topKind]

theorem afterNode_end (h : startsWith "END" upper = true) :
    (afterNode dialect node (blockStatement upper) next frames).frames =
      (closeForEnd dialect upper next frames).1 := by
  simp [afterNode, blockStatement, startsWith_begin_of_end h, h]

theorem endForm_ne_block (upper : List Char) : endForm upper ≠ .explicit .block := by
  unfold endForm
  dsimp only
  repeat' split
  all_goals exact fun h => nomatch h

theorem endForm_ne_handler (upper : List Char) : endForm upper ≠ .explicit .handler := by
  unfold endForm
  dsimp only
  repeat' split
  all_goals exact fun h => nomatch h

theorem closeForEnd_explicit (hform : endForm upper = .explicit kind) (hkind : frame.kind = kind) :
    (closeForEnd dialect upper next (frame :: frames)).1 = frames := by
  unfold closeForEnd
  rw [hform]
  show (popThrough kind (frame :: frames)).1 = frames
  rw [popThrough, if_pos hkind]

theorem popThrough_suffix (kind : RegionKind) (frames : List RegionFrame) :
    (popThrough kind frames).1 <:+ frames := by
  induction frames with
  | nil => exact List.suffix_refl _
  | cons frame frames ih =>
    rw [popThrough]
    split
    · exact List.suffix_cons frame frames
    · exact ih.trans (List.suffix_cons frame frames)

theorem popThrough_append {extra : List RegionFrame}
    (hextra : ∀ frame ∈ extra, frame.kind ≠ kind) (frames : List RegionFrame) :
    (popThrough kind (extra ++ frames)).1 = (popThrough kind frames).1 := by
  induction extra with
  | nil => rfl
  | cons frame extra ih =>
    rw [List.cons_append, popThrough, if_neg (hextra frame List.mem_cons_self)]
    exact ih fun other hmem => hextra other (List.mem_cons_of_mem _ hmem)

theorem afterNode_handler
    (hdeclared : startsWith "DECLARE " upper = true → nextStartsWith "BEGIN" next = true)
    (htry : startsWith "BEGIN TRY" upper = false) (hcatch : startsWith "BEGIN CATCH" upper = false)
    (hwhen : startsWith "WHEN " upper = false) :
    (afterNode dialect node (handlerStatement upper) next frames).frames =
      { kind := .handler, rootRef := node, activeRef := node, conditionText := some upper } ::
          frames := by
  have hblock : ¬(startsWith "DECLARE " upper = true ∧ nextStartsWith "BEGIN" next = false) := by
    rintro ⟨hdeclare, hnext⟩
    rw [hdeclared hdeclare] at hnext
    exact nomatch hnext
  unfold afterNode handlerStatement
  dsimp only
  rw [if_neg fun h => hblock ⟨h.2.1, h.2.2.2⟩, htry, hcatch, hwhen]
  rfl

theorem afterNode_declare (declaration : List Char) (begin : BeginText)
    (rest : List ClassifiedStatement) :
    (afterNode dialect node (handlerStatement ("DECLARE ".toList ++ declaration))
        (nextUpper next (blockStatement begin.upper :: rest)) frames).frames =
      { kind := .handler, rootRef := node, activeRef := node,
        conditionText := some ("DECLARE ".toList ++ declaration) } :: frames :=
  afterNode_handler (fun _ => begin.begins) rfl rfl rfl

theorem afterNode_exception :
    (afterNode dialect node (handlerStatement "EXCEPTION".toList) next frames).frames =
      { kind := .handler, rootRef := node, activeRef := node,
        conditionText := some "EXCEPTION".toList } :: frames :=
  afterNode_handler (fun h => nomatch h) rfl rfl rfl

theorem afterNode_beginTry (hdeclare : startsWith "DECLARE " upper = false)
    (htry : startsWith "BEGIN TRY" upper = true) :
    (afterNode dialect node (handlerStatement upper) next frames).frames =
      { kind := .tryCatch, rootRef := node, activeRef := node,
          conditionText := some "TRY".toList } ::
        frames := by
  simp [afterNode, handlerStatement, hdeclare, htry]

theorem beginsArm_catch (hdeclare : startsWith "DECLARE " upper = false)
    (htry : startsWith "BEGIN TRY" upper = false) (hcatch : startsWith "BEGIN CATCH" upper = true) :
    BeginsArm [.tryCatch] (handlerStatement upper) := by
  refine ⟨fun frames => ?_, fun dialect node next frames hne => ?_⟩
  · simp [Dialects.parentFor, handlerStatement, hcatch]
  · obtain ⟨frame, hframe⟩ := Option.ne_none_iff_exists'.mp hne
    refine ⟨_, activate_activates node (some "CATCH".toList), ?_⟩
    simp [Dialects.afterNode, handlerStatement, hdeclare, htry, hcatch, hframe]

theorem beginsArm_beginCatch : BeginsArm [.tryCatch] (handlerStatement "BEGIN CATCH".toList) :=
  beginsArm_catch rfl rfl rfl

theorem endForm_endTry : endForm "END TRY".toList = .endTry := by decide

theorem endForm_endCatch : endForm "END CATCH".toList = .explicit .tryCatch := by decide

theorem closeForEnd_endTry (hform : endForm upper = .endTry) :
    (closeForEnd dialect upper next frames).1 = frames := by
  unfold closeForEnd
  rw [hform]

theorem closeForEnd_block (hform : endForm upper = .plain) (hkind : frame.kind = .block) :
    (closeForEnd dialect upper next (frame :: frames)).1 =
    (closeBlock dialect next frame frames).1 := by
  unfold closeForEnd
  rw [hform]
  dsimp only
  rw [if_pos hkind]

theorem closeForEnd_exceptionBlock (hform : endForm upper = .plain)
    {frame block : RegionFrame} (hkind : frame.kind = .handler) (hblock : block.kind = .block) :
    (closeForEnd dialect upper next (frame :: block :: frames)).1 = frames := by
  have hne : frame.kind ≠ .block := by
    rw [hkind]
    exact fun h => nomatch h
  unfold closeForEnd
  rw [hform]
  dsimp only
  rw [if_neg hne, if_pos ⟨hkind, congrArg some hblock⟩]
  rfl

theorem closeBlock_handler {block owner : RegionFrame} (hkind : block.ownerKind = some .handler)
    (howner : owner.kind = .handler) (href : block.ownerRef = some owner.rootRef) :
    (closeBlock dialect next block (owner :: frames)).1 = frames := by
  have hnearest : nearest [.handler] (owner :: frames) = some owner :=
    List.find?_cons_of_pos (by simp [howner])
  unfold closeBlock
  dsimp only
  rw [if_pos hkind, hnearest]
  dsimp only
  rw [if_pos href.symm]
  rfl

theorem closeBlock_other (hdialect : dialect ≠ .sqlserverTsql) {block : RegionFrame}
    (hkind : block.ownerKind ≠ some .handler) :
    (closeBlock dialect next block frames).1 = frames := by
  unfold closeBlock
  dsimp only
  rw [if_neg hkind, if_neg hdialect]

theorem beginsArm_when {s : ClassifiedStatement} (hkind : s.kind = .errorHandler)
    (hdeclare : startsWith "DECLARE " s.upper = false)
    (htry : startsWith "BEGIN TRY" s.upper = false)
    (hcatch : startsWith "BEGIN CATCH" s.upper = false)
    (hwhen : startsWith "WHEN " s.upper = true) :
    BeginsArm [.handler] s := by
  refine ⟨fun frames => ?_, fun dialect node next frames hne => ?_⟩
  · simp [Dialects.parentFor, hkind, hcatch, hwhen]
  · obtain ⟨frame, hframe⟩ := Option.ne_none_iff_exists'.mp hne
    refine ⟨_, activate_activates node s.condition, ?_⟩
    simp [Dialects.afterNode, hkind, hdeclare, htry, hcatch, hwhen, hframe]

theorem ArmHeader.beginsArm (header : ArmHeader kind) :
    ∃ kinds, kind ∈ kinds ∧ BeginsArm kinds header.statement := by
  cases header with
  | elsif condition | elseif condition =>
    refine ⟨[.if_], by simp, fun _ => rfl, fun dialect node next frames hne => ?_⟩
    obtain ⟨frame, hframe⟩ := Option.ne_none_iff_exists'.mp hne
    refine
      ⟨_, fun frame =>
        activate_activates node (orText (some condition) frame.conditionText) frame, ?_⟩
    simp only [Dialects.afterNode, ArmHeader.statement, hframe]
  | else_ | caseElse =>
    refine ⟨[.if_, .case_], by simp, fun _ => rfl, fun dialect node next frames hne => ?_⟩
    obtain ⟨frame, hframe⟩ := Option.ne_none_iff_exists'.mp hne
    refine ⟨_, fun frame =>
      activate_activates node (orText (some "ELSE".toList) frame.conditionText) frame, ?_⟩
    simp only [Dialects.afterNode, ArmHeader.statement, hframe]
  | when_ condition | handlerInCase condition =>
    refine ⟨[.case_, .handler], by simp, fun _ => rfl, fun dialect node next frames hne => ?_⟩
    obtain ⟨frame, hframe⟩ := Option.ne_none_iff_exists'.mp hne
    refine ⟨_, activate_activates node (some condition), ?_⟩
    simp only [Dialects.afterNode, ArmHeader.statement, hframe]
  | handler condition => exact ⟨[.handler], by simp, beginsArm_when rfl rfl rfl rfl rfl⟩

theorem run_end {stack out : List RegionFrame} (hends : startsWith "END" upper = true)
    (hclose : (closeForEnd dialect upper next stack).1 = out) :
    Run dialect next node [blockStatement upper] stack [currentParent stack] out :=
  .cons rfl ((afterNode_end hends).trans hclose) .nil

/-- The tracker gives the statements of the arms their parents, and leaves the frame of their region
with the last of them active. -/
def Arms.Followed (dialect : DialectId) {kind : RegionKind} (arms : Arms kind) : Prop :=
  ∀ (next : Option (List Char)) (node : Nat) (frame : RegionFrame) (frames : List RegionFrame),
    frame.kind = kind → ∃ frame', frame'.kind = kind ∧ frame'.rootRef = frame.rootRef ∧
      frame'.activeRef = arms.last frame.activeRef node ∧
      Run dialect next node arms.render (frame :: frames) (arms.parents frame.rootRef node)
        (frame' :: frames)

theorem run_arms_end {arms : Arms kind}
    {out : List RegionFrame} (h : arms.Followed dialect) (hkind : frame.kind = kind)
    (hends : startsWith "END" upper = true)
    (hclose : ∀ frame', frame'.kind = kind →
      (closeForEnd dialect upper next (frame' :: frames)).1 = out) :
    Run dialect next node (arms.render ++ [blockStatement upper]) (frame :: frames)
      (arms.parents frame.rootRef node ++ [some (arms.last frame.activeRef node)]) out := by
  obtain ⟨frame', hkind', -, hactive, hrun⟩ := h (some upper) node frame frames hkind
  rw [← hactive]
  exact .append hrun (run_end hends (hclose frame' hkind'))

theorem run_arms_end_inv {arms : Arms kind}
    {last : Option Nat} {out : List RegionFrame} (h : arms.Followed dialect)
    (hkind : frame.kind = kind) (hends : startsWith "END" upper = true)
    (hlength : (arms.parents frame.rootRef node).length = arms.render.length)
    (hrun : Run dialect next node (arms.render ++ [blockStatement upper]) (frame :: frames)
      (arms.parents frame.rootRef node ++ [last]) out) :
    ∃ frame', frame'.kind = kind ∧ frame'.rootRef = frame.rootRef ∧
      frame'.activeRef = arms.last frame.activeRef node ∧
      out = (closeForEnd dialect upper next (frame' :: frames)).1 := by
  obtain ⟨frame', hkind', hroot, hactive, hfollowed⟩ := h (some upper) node frame frames hkind
  obtain ⟨mid, harms, hend⟩ := hrun.append_inv hlength
  obtain rfl := harms.unique hfollowed
  refine ⟨frame', hkind', hroot, hactive, ?_⟩
  rw [← (hend.singleton_inv).2]
  exact afterNode_end hends

theorem closeForEnd_label {label : Option (List Char)} {o : List RegionFrame}
    (hopened : ∀ frame ∈ o, frame.kind = .block ∨ frame.kind = .handler)
    (hplain : endForm (blockEnd label) = .plain →
      (closeForEnd dialect (blockEnd label) next (o ++ frames)).1 = frames)
    (hfits : LabelFits (topKind frames) label) :
    (closeForEnd dialect (blockEnd label) next (o ++ frames)).1 = frames := by
  unfold LabelFits at hfits
  cases hform : endForm (blockEnd label) with
  | plain => exact hplain hform
  | endTry =>
    rw [hform] at hfits
    exact hfits.elim
  | explicit kind =>
    rw [hform] at hfits
    have hframes : frames = [] := by
      cases frames with
      | nil => rfl
      | cons frame frames => exact nomatch hfits
    have hkinds : ∀ frame ∈ o, frame.kind ≠ kind := by
      rintro frame hmem rfl
      rcases hopened frame hmem with hkind | hkind
      · exact endForm_ne_block _ (hkind ▸ hform)
      · exact endForm_ne_handler _ (hkind ▸ hform)
    unfold closeForEnd
    rw [hform]
    show (popThrough kind (o ++ frames)).1 = frames
    rw [popThrough_append hkinds, hframes]
    rfl

end Statements

/-! ## Trees the tracker follows -/

section Tracked

variable {dialect : DialectId}

mutual

/-- A tracked statement leaves the stack as it was. -/
theorem Stmt.run_of_tracked (hdialect : dialect ≠ .sqlserverTsql) : ∀ (s : Stmt)
    {next : Option (List Char)} {node : Nat}
    {frames : List RegionFrame}, s.Tracked (topKind frames) →
      Run dialect next node s.render frames (s.parents node (currentParent frames)) frames
  | .simple s, next, node, frames, _ => by
      refine .cons s.parentFor ?_ .nil
      rw [s.afterNode]
      exact closeSingle_frames hdialect _
  | .ifElse condition body arms close, next, node, frames, h => by
      obtain ⟨hbody, harms⟩ := h
      refine .cons rfl rfl (.append (body.run_of_tracked hdialect hbody) ?_)
      exact run_arms_end (arms.run_of_tracked hdialect harms) rfl close.ends
        fun _ hkind => closeForEnd_explicit close.reads hkind
  | .caseOf operand arms close, next, node, frames, h =>
    .cons rfl rfl (run_arms_end (arms.run_of_tracked hdialect h) rfl close.ends
      fun _ hkind => closeForEnd_explicit close.reads hkind)
  | .loop condition upper body close, next, node, frames, h =>
    .cons rfl rfl (.append (body.run_of_tracked hdialect h)
      (run_end close.ends (closeForEnd_explicit close.reads rfl)))
  | .block begin body label, next, node, frames, h => by
      obtain ⟨hbody, hfits, htop⟩ := h
      refine .cons rfl (afterNode_begin begin) (.append (body.run_of_tracked hdialect hbody) ?_)
      refine run_end rfl (closeForEnd_label (o := [_]) (by simp) (fun hplain => ?_) hfits)
      exact (closeForEnd_block hplain rfl).trans (closeBlock_other hdialect htop)
  | .exceptionBlock begin body arms label, next, node, frames, h => by
      obtain ⟨hbody, harms, hfits⟩ := h
      refine .cons rfl (afterNode_begin begin) (.append (body.run_of_tracked hdialect hbody) ?_)
      refine .cons rfl (afterNode_handler (fun hdeclare => nomatch hdeclare) rfl rfl rfl) ?_
      refine run_arms_end (arms.run_of_tracked hdialect harms) rfl rfl fun frame hkind => ?_
      refine closeForEnd_label (o := [_, _]) ?_ (fun hplain => ?_) hfits
      · intro other hmem
        rcases List.mem_cons.mp hmem with rfl | hmem
        · exact .inr hkind
        · exact .inl (by rw [List.mem_singleton.mp hmem])
      · exact closeForEnd_exceptionBlock hplain hkind rfl
  | .tryCatch body handler, next, node, frames, h => by
      obtain ⟨hbody, hhandler⟩ := h
      refine .cons rfl (afterNode_beginTry rfl rfl)
        (.append (body.run_of_tracked hdialect hbody) ?_)
      refine .cons rfl ((afterNode_end rfl).trans (closeForEnd_endTry endForm_endTry)) ?_
      obtain ⟨hparent, frame, hactivates, hafter⟩ := @BeginsArm.activates_top _ _
        { kind := .tryCatch, rootRef := node, activeRef := node,
            conditionText := some "TRY".toList }
        frames beginsArm_beginCatch (List.mem_singleton_self _) dialect (node + 1 + body.size + 1)
        (nextUpper next (handler.render ++ [blockStatement "END CATCH".toList]))
      have hkind : frame.kind = .tryCatch := hactivates.kind
      have hhandlerRun := @Stmts.run_of_tracked hdialect handler (some "END CATCH".toList)
        (node + 1 + body.size + 1 + 1) (frame :: frames)
        (show handler.Tracked (some frame.kind) by rw [hkind]; exact hhandler)
      have hparents : currentParent (frame :: frames) = some (node + 1 + body.size + 1) :=
        congrArg some hactivates.active
      rw [hparents] at hhandlerRun
      refine .cons hparent hafter (hhandlerRun.append ?_)
      rw [← hparents]
      exact run_end rfl (closeForEnd_explicit endForm_endCatch hkind)
  | .declaredHandler declaration begin body label, next, node, frames, h => by
      obtain ⟨hbody, hfits⟩ := h
      refine .cons rfl (afterNode_handler (fun _ => begin.begins) rfl rfl rfl) ?_
      refine .cons rfl (afterNode_begin begin) (.append (body.run_of_tracked hdialect hbody) ?_)
      refine run_end rfl (closeForEnd_label (o := [_, _]) (by simp) (fun hplain => ?_) hfits)
      exact (closeForEnd_block hplain rfl).trans (closeBlock_handler rfl rfl rfl)

theorem Stmts.run_of_tracked (hdialect : dialect ≠ .sqlserverTsql) : ∀ (s : Stmts)
    {next : Option (List Char)} {node : Nat}
    {frames : List RegionFrame}, s.Tracked (topKind frames) →
      Run dialect next node s.render frames (s.parents node (currentParent frames)) frames
  | .nil, _, _, _, _ => .nil
  | .cons first rest, _, _, _, h =>
    .append (first.run_of_tracked hdialect h.1) (rest.run_of_tracked hdialect h.2)

theorem Arms.run_of_tracked (hdialect : dialect ≠ .sqlserverTsql) : ∀ {kind : RegionKind}
    (arms : Arms kind), arms.Tracked → arms.Followed dialect
  | _, .nil, _ => fun _ _ frame _ hkind => ⟨frame, hkind, rfl, rfl, .nil⟩
  | kind, .cons header body rest, h => by
      intro next node frame frames hkind
      obtain ⟨kinds, hmem, hbegins⟩ := header.beginsArm
      obtain ⟨hparent, frame', hactivates, hafter⟩ :=
        @BeginsArm.activates_top kinds header.statement frame frames hbegins (hkind ▸ hmem)
          dialect node
          (nextUpper next (body.render ++ rest.render))
      have hkind' : frame'.kind = kind := hactivates.kind.trans hkind
      have hbody : body.Tracked (topKind (frame' :: frames)) := by
        show body.Tracked (some frame'.kind)
        rw [hkind']
        exact h.1
      have hparents : currentParent (frame' :: frames) = some node :=
        congrArg some hactivates.active
      obtain ⟨last, hlast, hroot, hactive, hrest⟩ :=
        rest.run_of_tracked hdialect h.2 next (node + 1 + body.size) frame' frames hkind'
      have hbodyRun := @Stmts.run_of_tracked hdialect body (nextUpper next rest.render) (node + 1)
        (frame' :: frames) hbody
      rw [hparents] at hbodyRun
      rw [hactivates.root] at hrest
      refine ⟨last, hlast, hroot.trans hactivates.root, ?_,
        .cons hparent hafter (hbodyRun.append hrest)⟩
      rw [hactive, hactivates.active]
      rfl

end

end Tracked

/-! ## Trees the tracker gets right -/

mutual

theorem Stmt.parents_length : ∀ (s : Stmt) (node : Nat) (parent : Option Nat),
    (s.parents node parent).length = s.render.length
  | .simple _, _, _ => rfl
  | .ifElse _ body arms _, _, _ => by
      simp only [Stmt.parents, Stmt.render, List.length_cons, List.length_append, List.length_nil,
        body.parents_length, arms.parents_length]
  | .caseOf _ arms _, _, _ => by
      simp only [Stmt.parents, Stmt.render, List.length_cons, List.length_append, List.length_nil,
        arms.parents_length]
  | .loop _ _ body _, _, _ => by
      simp only [Stmt.parents, Stmt.render, List.length_cons, List.length_append, List.length_nil,
        body.parents_length]
  | .block _ body _, _, _ => by
      simp only [Stmt.parents, Stmt.render, List.length_cons, List.length_append, List.length_nil,
        body.parents_length]
  | .exceptionBlock _ body arms _, _, _ => by
      simp only [Stmt.parents, Stmt.render, List.length_cons, List.length_append, List.length_nil,
        body.parents_length, arms.parents_length]
  | .tryCatch body handler, _, _ => by
      simp only [Stmt.parents, Stmt.render, List.length_cons, List.length_append, List.length_nil,
        body.parents_length, handler.parents_length]
  | .declaredHandler _ _ body _, _, _ => by
      simp only [Stmt.parents, Stmt.render, List.length_cons, List.length_append, List.length_nil,
        body.parents_length]

theorem Stmts.parents_length : ∀ (s : Stmts) (node : Nat) (parent : Option Nat),
    (s.parents node parent).length = s.render.length
  | .nil, _, _ => rfl
  | .cons first rest, _, _ => by
      simp only [Stmts.parents, Stmts.render, List.length_append, first.parents_length,
        rest.parents_length]

theorem Arms.parents_length : ∀ {kind : RegionKind} (arms : Arms kind) (root node : Nat),
    (arms.parents root node).length = arms.render.length
  | _, .nil, _, _ => rfl
  | _, .cons _ body rest, _, _ => by
      simp only [Arms.parents, Arms.render, List.length_cons, List.length_append,
        body.parents_length, rest.parents_length]

end

section Outcome

variable {dialect : DialectId} {next : Option (List Char)} {node n m : Nat}
  {frame : RegionFrame} {frames stack out : List RegionFrame}

theorem Stmt.currentParent_of_run (s : Stmt) {parent : Option Nat}
    (h : Run dialect next node s.render stack (s.parents node parent) out) :
    currentParent stack = parent := by
  cases s with
  | simple s =>
    rw [← h.cons_inv.1]
    exact s.parentFor.symm
  | _ => exact h.cons_inv.1

variable {kind : RegionKind}

theorem Arms.cons_run_inv {header : ArmHeader kind} {body : Stmts} {rest : Arms kind}
    {close : ClassifiedStatement} {root : Nat} {last : Option Nat}
    (h : Run dialect next node ((Arms.cons header body rest).render ++ [close]) stack
      ((Arms.cons header body rest).parents root node ++ [last]) out) :
    parentFor header.statement stack = some root ∧ ∃ next' mid,
      Run dialect (nextUpper next (rest.render ++ [close])) (node + 1) body.render
        (afterNode dialect node header.statement next' stack).frames
        (body.parents (node + 1) (some node)) mid ∧
      Run dialect next (node + 1 + body.size) (rest.render ++ [close]) mid
        (rest.parents root (node + 1 + body.size) ++ [last]) out := by
  simp only [Arms.render, Arms.parents, List.cons_append, List.append_assoc] at h
  obtain ⟨hparent, h⟩ := h.cons_inv
  obtain ⟨mid, hbody, hrest⟩ := h.append_inv (body.parents_length _ _)
  exact ⟨hparent, _, mid, hbody, hrest⟩

/-- What is left open is not closed by the arms. -/
theorem Arms.not_run_of_leftOpen : ∀ {kind : RegionKind} (arms : Arms kind) {upper : List Char}
    {node : Nat} {frame : RegionFrame} {stack : List RegionFrame}, frame.kind = kind →
    frame.rootRef < n →
    (frame.activeRef < n ∨ m ≤ frame.activeRef) → m ≤ node →
    LeftOpen n m (frame :: frames) stack →
    ¬Run dialect next node (arms.render ++ [blockStatement upper]) stack
      (arms.parents frame.rootRef node ++ [some (arms.last frame.activeRef node)]) out
  | _, .nil, upper, node, frame, stack, _, _, hactive, _, hleft => by
      intro h
      obtain ⟨x, hx, hlow, hhigh⟩ := hleft.currentParent
      have hparent : currentParent stack = some frame.activeRef := h.cons_inv.1
      have := Option.some.inj (hx.symm.trans hparent)
      omega
  | kind, .cons header body rest, upper, node, frame, stack, hkind, hroot, _, hnode, hleft => by
      intro h
      obtain ⟨extra, hne, hextra, rfl⟩ := hleft
      obtain ⟨kinds, hmem, hbegins⟩ := header.beginsArm
      obtain ⟨hparent, next', mid, hbody, hrest⟩ := Arms.cons_run_inv h
      have hkinds := hbegins.kinds_of_parent hextra hroot hparent
      obtain ⟨-, frame', hactivates, hafter⟩ :=
        @BeginsArm.activates kinds header.statement frame extra
        frames hbegins (hkind ▸ hmem) hkinds dialect node next'
      rw [hafter] at hbody
      cases body with
      | nil =>
        obtain rfl := hbody.nil_inv
        obtain rfl := hactivates.active
        rw [← hactivates.root] at hrest hroot
        exact Arms.not_run_of_leftOpen rest (hactivates.kind.trans hkind) hroot (.inr hnode)
          (Nat.le_succ_of_le hnode) ⟨extra, hne, hextra, rfl⟩ hrest
      | cons first others =>
        have hleft : LeftOpen n m (frame' :: frames) (extra ++ frame' :: frames) :=
          ⟨extra, hne, hextra, rfl⟩
        obtain ⟨x, hx, hlow, hhigh⟩ := hleft.currentParent
        obtain ⟨mid, hfirst, -⟩ := hbody.append_inv (first.parents_length _ _)
        have := Option.some.inj (hx.symm.trans (first.currentParent_of_run hfirst))
        omega

variable {upper : List Char}

theorem Arms.not_run_of_closed (arms : Arms kind)
    (hbelow : Below n (frame :: frames)) (hclosed : Closed (frame :: frames) stack) :
    ¬Run dialect next node (arms.render ++ [blockStatement upper]) stack
      (arms.parents frame.rootRef node ++ [some (arms.last frame.activeRef node)]) out := by
  intro h
  cases arms with
  | nil => exact hclosed.currentParent_ne hbelow h.cons_inv.1
  | cons header body rest =>
    obtain ⟨kinds, -, hbegins⟩ := header.beginsArm
    have hparent := h.cons_inv.1
    rw [hbegins.parent] at hparent
    exact hclosed.rootOfNearest_ne hbelow kinds hparent

theorem Arms.not_run_of_off (arms : Arms kind)
    (hkind : frame.kind = kind) (hbelow : Below n (frame :: frames))
    (hoff : Off n node (frame :: frames) stack) :
    ¬Run dialect next node (arms.render ++ [blockStatement upper]) stack
      (arms.parents frame.rootRef node ++ [some (arms.last frame.activeRef node)]) out := by
  have hroot : frame.rootRef < n := Nat.lt_of_le_of_lt hbelow.1 hbelow.2.1
  rcases hoff with hclosed | hleft
  · exact arms.not_run_of_closed hbelow hclosed
  · exact arms.not_run_of_leftOpen hkind hroot (.inl hbelow.2.1) (Nat.le_refl _) hleft

theorem Arms.last_bounds : ∀ {kind : RegionKind} (arms : Arms kind)
    {active node : Nat}, n ≤ active →
    active < node → n ≤ arms.last active node ∧ arms.last active node < node + arms.size
  | _, .nil, _, _, hlow, hhigh => ⟨hlow, hhigh⟩
  | _, .cons header body rest, active, node, hlow, hhigh => by
      have hrest : n ≤ rest.last node (node + 1 + body.size) ∧
          rest.last node (node + 1 + body.size) < node + 1 + body.size + rest.size :=
        Arms.last_bounds rest (by omega) (by omega)
      have hsize : (Arms.cons header body rest).size = 1 + body.size + rest.size := by
        simp only [Arms.size, Stmts.size, Arms.render, List.length_cons, List.length_append]
        omega
      rw [Arms.last, hsize]
      omega

theorem below_cons (hbelow : Below n frames) (hle : n ≤ node) (hroot : frame.rootRef = node)
    (hactive : frame.activeRef = node) : Below (node + 1) (frame :: frames) := by
  refine ⟨?_, ?_, ?_⟩
  · omega
  · omega
  · rw [hroot]
    exact hbelow.mono hle

/-- A label that does not fit leaves the stack off. -/
theorem off_of_label {label : Option (List Char)} {o : List RegionFrame}
    (hbelow : Below n frames) (hne : o ≠ [])
    (hopened : ∀ frame ∈ o, frame.kind = .block ∨ frame.kind = .handler)
    (hrefs : ∀ frame ∈ o, n ≤ frame.rootRef ∧ n ≤ frame.activeRef ∧ frame.activeRef < m)
    (hfits : ¬LabelFits (topKind frames) label) :
    Off n m frames (closeForEnd dialect (blockEnd label) next (o ++ frames)).1 := by
  unfold LabelFits at hfits
  cases hform : endForm (blockEnd label) with
  | plain =>
    rw [hform] at hfits
    exact absurd trivial hfits
  | endTry =>
    rw [closeForEnd_endTry hform]
    exact .inr ⟨o, hne, hrefs, rfl⟩
  | explicit kind =>
    rw [hform] at hfits
    have hkinds : ∀ frame ∈ o, frame.kind ≠ kind := by
      rintro frame hmem rfl
      rcases hopened frame hmem with hkind | hkind
      · exact endForm_ne_block _ (hkind ▸ hform)
      · exact endForm_ne_handler _ (hkind ▸ hform)
    unfold closeForEnd
    rw [hform]
    show Off n m frames (popThrough kind (o ++ frames)).1
    rw [popThrough_append hkinds]
    cases frames with
    | nil => exact absurd rfl hfits
    | cons frame frames =>
      refine .inl (Closed.of_suffix ?_)
      rw [popThrough]
      split
      · exact List.suffix_refl _
      · exact popThrough_suffix kind frames

theorem Stmts.tracked_of_end {s : Stmts} {close : ClassifiedStatement}
    {rest : List ClassifiedStatement} {parents : List (Option Nat)}
    (h : Run dialect next node (s.render ++ close :: rest) frames
      (s.parents node (currentParent frames) ++ currentParent frames :: parents) out)
    (hclose : ∀ stack, parentFor close stack = currentParent stack)
    (hbelow : Below node frames)
    (houtcome : ∀ {out}, Run dialect (some close.upper) node s.render frames
      (s.parents node (currentParent frames)) out →
        s.Tracked (topKind frames) ∨ Off node (node + s.size) frames out) :
    s.Tracked (topKind frames) := by
  obtain ⟨mid, hbody, hrest⟩ := h.append_inv (s.parents_length _ _)
  rcases houtcome hbody with htracked | hoff
  · exact htracked
  · have hparent := hrest.cons_inv.1
    rw [hclose] at hparent
    exact absurd hparent (hoff.currentParent_ne hbelow)

theorem run_end_inv {parent : Option Nat} (hends : startsWith "END" upper = true)
    (h : Run dialect next node [blockStatement upper] stack [parent] out) :
    out = (closeForEnd dialect upper next stack).1 := by
  rw [← (h.singleton_inv).2]
  exact afterNode_end hends

theorem closed_of_handler {block : RegionFrame} (htop : topKind frames = some .handler)
    (hkind : block.ownerKind = topKind frames)
    (href : block.ownerRef = frames.head?.map RegionFrame.rootRef) :
    Closed frames (closeBlock dialect next block frames).1 := by
  cases frames with
  | nil => exact nomatch htop
  | cons owner frames =>
    rw [closeBlock_handler (hkind.trans htop) (Option.some.inj htop) href]
    exact Closed.of_suffix (List.suffix_refl _)

theorem below_opened (hbelow : Below node frames) (kind : RegionKind)
    (condition : Option (List Char)) (ownerKind : Option RegionKind) (ownerRef : Option Nat)
    (single : Bool) :
    Below (node + 1) (⟨kind, node, node, condition, ownerKind, ownerRef, single, 0⟩ :: frames) :=
  below_cons hbelow (Nat.le_refl _) rfl rfl

end Outcome

mutual

/-- Where every statement of a tree gets its parent, the tracker follows the tree, or else the stack
is off after it. -/
theorem Stmt.outcome {dialect : DialectId} (hdialect : dialect ≠ .sqlserverTsql) : ∀ (s : Stmt)
    {next : Option (List Char)} {node : Nat} {frames out : List RegionFrame}, Below node frames →
    Run dialect next node s.render frames (s.parents node (currentParent frames)) out →
      s.Tracked (topKind frames) ∨ Off node (node + s.size) frames out
  | .simple _, _, _, _, _, _, _ => .inl trivial
  | .ifElse condition body arms close, next, node, frames, out, hbelow, h => by
      obtain ⟨mid, hbody, harms⟩ := h.cons_inv.2.append_inv (body.parents_length _ _)
      rw [afterNode_if] at hbody
      have hbelow' := below_opened hbelow .if_
      rcases body.outcome hdialect (hbelow' _ _ _ _) hbody with htracked | hoff
      · obtain rfl := hbody.unique (body.run_of_tracked hdialect htracked)
        exact .inl ⟨htracked, arms.tracked_of_run hdialect rfl
          ((hbelow' _ _ _ _).mono (Nat.le_add_right _ _)) harms⟩
      · exact absurd harms (arms.not_run_of_off rfl (hbelow' _ _ _ _) hoff)
  | .caseOf operand arms close, next, node, frames, out, hbelow, h =>
    .inl (arms.tracked_of_run hdialect rfl (below_opened hbelow .case_ operand _ _ _) h.cons_inv.2)
  | .loop condition upper body close, next, node, frames, out, hbelow, h => by
      have hbelow' := below_opened hbelow .loop
      exact .inl (Stmts.tracked_of_end h.cons_inv.2 (fun _ => rfl) (hbelow' _ _ _ _)
        (body.outcome hdialect (hbelow' _ _ _ _)))
  | .block begin body label, next, node, frames, out, hbelow, h => by
      have h := h.cons_inv.2
      rw [afterNode_begin] at h
      have hbelow' := below_opened hbelow .block
      have hbody := Stmts.tracked_of_end h (fun _ => rfl) (hbelow' _ _ _ _)
        (body.outcome hdialect (hbelow' _ _ _ _))
      obtain ⟨mid, hrun, hend⟩ := h.append_inv (body.parents_length _ _)
      obtain rfl := hrun.unique (body.run_of_tracked hdialect hbody)
      obtain rfl := run_end_inv rfl hend
      by_cases hfits : LabelFits (topKind frames) label
      · by_cases htop : topKind frames = some .handler
        · have hplain : endForm (blockEnd label) = .plain := by
            unfold LabelFits at hfits
            cases hform : endForm (blockEnd label) with
            | plain => rfl
            | endTry =>
              rw [hform] at hfits
              exact hfits.elim
            | explicit kind =>
              rw [hform] at hfits
              exact nomatch htop.symm.trans hfits
          rw [closeForEnd_block hplain rfl]
          exact .inr (.inl (closed_of_handler htop rfl rfl))
        · exact .inl ⟨hbody, hfits, htop⟩
      · refine .inr (off_of_label (o := [_]) hbelow (List.cons_ne_nil _ _) (by simp) ?_ hfits)
        intro frame hmem
        rw [List.mem_singleton.mp hmem, Stmt.size, Stmt.render, List.length_cons]
        dsimp only
        omega
  | .exceptionBlock begin body arms label, next, node, frames, out, hbelow, h => by
      have h := h.cons_inv.2
      rw [afterNode_begin] at h
      have hbelow' := below_opened hbelow .block
      have hbody := Stmts.tracked_of_end h (fun _ => rfl) (hbelow' _ _ _ _)
        (body.outcome hdialect (hbelow' _ _ _ _))
      obtain ⟨mid, hrun, hexception⟩ := h.append_inv (body.parents_length _ _)
      obtain rfl := hrun.unique (body.run_of_tracked hdialect hbody)
      have harmsRun := hexception.cons_inv.2
      rw [afterNode_exception] at harmsRun
      have hbelow'' := below_opened ((hbelow' none (topKind frames)
        (frames.head?.map RegionFrame.rootRef) false).mono (Nat.le_add_right _ body.size)) .handler
      have harms := arms.tracked_of_run hdialect rfl (hbelow'' _ _ _ _) harmsRun
      obtain ⟨frame, hkind, hroot, hactive, rfl⟩ :=
        run_arms_end_inv (arms.run_of_tracked hdialect harms) rfl rfl
          (arms.parents_length _ _) harmsRun
      by_cases hfits : LabelFits (topKind frames) label
      · exact .inl ⟨hbody, harms, hfits⟩
      · have hlast : node ≤ frame.activeRef ∧
            frame.activeRef < node + 1 + body.size + 1 + arms.size := by
          rw [hactive]
          exact arms.last_bounds (by dsimp only; omega) (Nat.lt_succ_self _)
        have hsize : (Stmt.exceptionBlock begin body arms label).size =
            1 + body.size + 1 + arms.size + 1 := by
          simp only [Stmt.size, Stmts.size, Arms.size, Stmt.render, List.length_cons,
            List.length_append, List.length_nil]
          omega
        refine .inr (off_of_label (o := [_, _]) hbelow (List.cons_ne_nil _ _) ?_ ?_ hfits)
        · intro other hmem
          rcases List.mem_cons.mp hmem with rfl | hmem
          · exact .inr hkind
          · exact .inl (by rw [List.mem_singleton.mp hmem])
        · intro other hmem
          rw [hsize]
          rcases List.mem_cons.mp hmem with rfl | hmem
          · rw [hroot]
            dsimp only
            omega
          · rw [List.mem_singleton.mp hmem]
            dsimp only
            omega
  | .tryCatch body handler, next, node, frames, out, hbelow, h => by
      have h := h.cons_inv.2
      rw [afterNode_beginTry rfl rfl] at h
      have hbelow' := below_opened hbelow .tryCatch
      have hbody := Stmts.tracked_of_end h (fun _ => rfl) (hbelow' _ _ _ _)
        (body.outcome hdialect (hbelow' _ _ _ _))
      obtain ⟨mid, hrun, hcatch⟩ := h.append_inv (body.parents_length _ _)
      obtain rfl := hrun.unique (body.run_of_tracked hdialect hbody)
      have hcatch := hcatch.cons_inv.2
      rw [afterNode_end rfl, closeForEnd_endTry endForm_endTry] at hcatch
      obtain ⟨frame, hactivates, hafter⟩ := (@BeginsArm.activates_top _ _
        { kind := .tryCatch, rootRef := node, activeRef := node,
            conditionText := some "TRY".toList }
        frames beginsArm_beginCatch (List.mem_singleton_self _) dialect (node + 1 + body.size + 1)
        (nextUpper next (handler.render ++ [blockStatement "END CATCH".toList]))).2
      have hhandlerRun := hcatch.cons_inv.2
      change Run _ _ (node + 1 + body.size + 1 + 1) _
        (afterNode _ (node + 1 + body.size + 1) _ _ _).frames _ _ at hhandlerRun
      rw [hafter] at hhandlerRun
      have hkind : frame.kind = .tryCatch := hactivates.kind
      have hparents : currentParent (frame :: frames) = some (node + 1 + body.size + 1) :=
        congrArg some hactivates.active
      rw [← hparents] at hhandlerRun
      have hbelow'' : Below (node + 1 + body.size + 1 + 1) (frame :: frames) := by
        refine ⟨?_, ?_, ?_⟩
        · rw [hactivates.root, hactivates.active]
          dsimp only
          omega
        · rw [hactivates.active]
          exact Nat.lt_succ_self _
        · rw [hactivates.root]
          exact hbelow
      have hhandler := Stmts.tracked_of_end hhandlerRun (fun _ => rfl) hbelow''
        (handler.outcome hdialect hbelow'')
      refine .inl ⟨hbody, ?_⟩
      have htop : topKind (frame :: frames) = some .tryCatch := congrArg some hkind
      rw [← htop]
      exact hhandler
  | .declaredHandler declaration begin body label, next, node, frames, out, hbelow, h => by
      have h := h.cons_inv.2
      rw [afterNode_declare] at h
      have h := h.cons_inv.2
      rw [afterNode_begin] at h
      have hbelow' := below_opened (below_opened hbelow .handler
        (some ("DECLARE ".toList ++ declaration)) none none false) .block
      have hbody := Stmts.tracked_of_end h (fun _ => rfl) (hbelow' _ _ _ _)
        (body.outcome hdialect (hbelow' _ _ _ _))
      obtain ⟨mid, hrun, hend⟩ := h.append_inv (body.parents_length _ _)
      obtain rfl := hrun.unique (body.run_of_tracked hdialect hbody)
      obtain rfl := run_end_inv rfl hend
      by_cases hfits : LabelFits (topKind frames) label
      · exact .inl ⟨hbody, hfits⟩
      · have hsize : (Stmt.declaredHandler declaration begin body label).size =
            1 + 1 + body.size + 1 := by
          simp only [Stmt.size, Stmts.size, Stmt.render, List.length_cons, List.length_append,
            List.length_nil]
          omega
        refine .inr (off_of_label (o := [_, _]) hbelow (List.cons_ne_nil _ _) (by simp) ?_ hfits)
        intro frame hmem
        rw [hsize]
        rcases List.mem_cons.mp hmem with rfl | hmem
        · dsimp only
          omega
        · rw [List.mem_singleton.mp hmem]
          dsimp only
          omega

theorem Stmts.outcome {dialect : DialectId} (hdialect : dialect ≠ .sqlserverTsql) : ∀ (s : Stmts)
    {next : Option (List Char)} {node : Nat} {frames out : List RegionFrame}, Below node frames →
    Run dialect next node s.render frames (s.parents node (currentParent frames)) out →
      s.Tracked (topKind frames) ∨ Off node (node + s.size) frames out
  | .nil, _, _, _, _, _, _ => .inl trivial
  | .cons first rest, next, node, frames, out, hbelow, h => by
      obtain ⟨mid, hfirst, hrest⟩ := h.append_inv (first.parents_length _ _)
      have hsize : (Stmts.cons first rest).size = first.size + rest.size := by
        simp only [Stmts.size, Stmt.size, Stmts.render, List.length_append]
      rw [hsize]
      rcases first.outcome hdialect hbelow hfirst with htracked | hoff
      · obtain rfl := hfirst.unique (first.run_of_tracked hdialect htracked)
        rcases rest.outcome hdialect (hbelow.mono (Nat.le_add_right _ _)) hrest with hrest | hoff
        · exact .inl ⟨htracked, hrest⟩
        · exact .inr (hoff.mono (Nat.le_add_right _ _) (by simp only [Stmt.size]; omega))
      · cases rest with
        | nil =>
          obtain rfl := hrest.nil_inv
          exact .inr (hoff.mono (Nat.le_refl _) (by omega))
        | cons second others =>
          -- The next statement gets the wrong parent.
          obtain ⟨_, hsecond, -⟩ := hrest.append_inv (second.parents_length _ _)
          exact absurd (second.currentParent_of_run hsecond) (hoff.currentParent_ne hbelow)

theorem Arms.tracked_of_run {dialect : DialectId} (hdialect : dialect ≠ .sqlserverTsql) :
    ∀ {kind : RegionKind} (arms : Arms kind) {next : Option (List Char)} {upper : List Char}
    {node : Nat} {frame : RegionFrame} {frames out : List RegionFrame}, frame.kind = kind →
    Below node (frame :: frames) →
    Run dialect next node (arms.render ++ [blockStatement upper]) (frame :: frames)
      (arms.parents frame.rootRef node ++ [some (arms.last frame.activeRef node)]) out →
      arms.Tracked
  | _, .nil, _, _, _, _, _, _, _, _, _ => trivial
  | kind, .cons header body rest, next, upper, node, frame, frames, out, hkind, hbelow, h => by
      obtain ⟨hparent, next', mid, hbody, hrest⟩ := Arms.cons_run_inv h
      obtain ⟨kinds, hmem, hbegins⟩ := header.beginsArm
      obtain ⟨-, frame', hactivates, hafter⟩ :=
        @BeginsArm.activates_top kinds header.statement frame frames hbegins (hkind ▸ hmem)
          dialect node
          next'
      obtain rfl := hactivates.active
      rw [hafter] at hbody
      have hkind' : frame'.kind = kind := hactivates.kind.trans hkind
      have hbelow' : Below (frame'.activeRef + 1) (frame' :: frames) := by
        refine ⟨?_, Nat.lt_succ_self _, ?_⟩
        · have := hbelow.1
          have := hbelow.2.1
          rw [hactivates.root]
          omega
        · rw [hactivates.root]
          exact hbelow.2.2
      rw [← hactivates.root] at hrest
      rcases body.outcome hdialect hbelow' hbody with htracked | hoff
      · obtain rfl := hbody.unique (body.run_of_tracked hdialect htracked)
        refine ⟨hkind' ▸ htracked, ?_⟩
        exact rest.tracked_of_run hdialect hkind' (hbelow'.mono (Nat.le_add_right _ _)) hrest
      · exact absurd hrest (rest.not_run_of_off hkind' hbelow' hoff)

end

end AtlasDb.Dialects
