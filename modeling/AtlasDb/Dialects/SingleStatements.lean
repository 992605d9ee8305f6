import AtlasDb.Dialects.Nesting

/-!
# Bodies of one statement

The statements of T-SQL as trees. An `IF`, an `ELSE` and a `WHILE` take one statement, and nothing
ends them but the end of it. The tracker closes such a region after a simple statement when it took
the body for a single statement at the beginning, and after a block otherwise; it gets right the
trees in which these two agree.
-/

namespace AtlasDb.Dialects

open Core

/-! ## Trees -/

/-- How an arm of an `IF` begins. -/
inductive ElseHeader where
  | elseIf (condition : List Char)
  | else_

mutual

/-- A T-SQL statement with what is nested in it. -/
inductive TStmt where
  | simple (s : SimpleStatement)
  | block (body : TStmts)
  | tryCatch (body handler : TStmts)
  | ifElse (condition : List Char) (body : TStmt) (arms : TArms)
  | while_ (condition : List Char) (body : TStmt)

inductive TStmts where
  | nil
  | cons (first : TStmt) (rest : TStmts)

/-- The arms of an `IF` after its body. -/
inductive TArms where
  | nil
  | cons (header : ElseHeader) (body : TStmt) (rest : TArms)

end

def ElseHeader.statement : ElseHeader → ClassifiedStatement
  | .elseIf condition => ⟨.condition, .elseif, some condition, "ELSE IF ".toList ++ condition⟩
  | .else_ => ⟨.condition, .else_, some "ELSE".toList, "ELSE".toList⟩

def whileStatement (condition : List Char) : ClassifiedStatement :=
  loopStatement (some condition) ("WHILE ".toList ++ condition)

mutual

def TStmt.render : TStmt → List ClassifiedStatement
  | .simple s => [s.statement]
  | .block body => blockStatement "BEGIN".toList :: (body.render ++ [blockStatement "END".toList])
  | .tryCatch body handler =>
    handlerStatement "BEGIN TRY".toList :: (body.render ++
      (blockStatement "END TRY".toList :: handlerStatement "BEGIN CATCH".toList ::
        (handler.render ++ [blockStatement "END CATCH".toList])))
  | .ifElse condition body arms => ifStatement condition :: (body.render ++ arms.render)
  | .while_ condition body => whileStatement condition :: body.render

def TStmts.render : TStmts → List ClassifiedStatement
  | .nil => []
  | .cons first rest => first.render ++ rest.render

def TArms.render : TArms → List ClassifiedStatement
  | .nil => []
  | .cons header body rest => header.statement :: (body.render ++ rest.render)

end

def TStmt.size (s : TStmt) : Nat := s.render.length
def TStmts.size (s : TStmts) : Nat := s.render.length
def TArms.size (arms : TArms) : Nat := arms.render.length

mutual

/-- The arm that encloses each statement. -/
def TStmt.parents (node : Nat) (parent : Option Nat) : TStmt → List (Option Nat)
  | .simple _ => [parent]
  | .block body => parent :: (body.parents (node + 1) (some node) ++ [some node])
  | .tryCatch body handler =>
    parent :: (body.parents (node + 1) (some node) ++
      (some node :: some node ::
        (handler.parents (node + 1 + body.size + 1 + 1) (some (node + 1 + body.size + 1)) ++
          [some (node + 1 + body.size + 1)])))
  | .ifElse _ body arms =>
    parent :: (body.parents (node + 1) (some node) ++ arms.parents node (node + 1 + body.size))
  | .while_ _ body => parent :: body.parents (node + 1) (some node)

def TStmts.parents (node : Nat) (parent : Option Nat) : TStmts → List (Option Nat)
  | .nil => []
  | .cons first rest => first.parents node parent ++ rest.parents (node + first.size) parent

def TArms.parents (root node : Nat) : TArms → List (Option Nat)
  | .nil => []
  | .cons _ body rest =>
    some root :: (body.parents (node + 1) (some node) ++ rest.parents root (node + 1 + body.size))

end

/-! ## What the tracker follows -/

/-- The innermost open region, and whether it was taken to have one statement. -/
def topFrame (frames : List RegionFrame) : Option (RegionKind × Bool) :=
  frames.head?.map fun frame => (frame.kind, frame.singleStatement)

def IsSingle (top : Option (RegionKind × Bool)) : Prop := top.map Prod.snd = some true

/-- The end of a block closes the region it is directly in, except an `IF` before an `ELSE`. -/
def ClosesOwner (top : Option (RegionKind × Bool)) (next : Option (List Char)) : Prop :=
  top ≠ none ∧ ¬(top.map Prod.fst = some .if_ ∧ nextStartsWith "ELSE" next = true)

/-- The text of the first statement. -/
def TStmt.firstUpper : TStmt → List Char
  | .simple s => s.statement.upper
  | .block _ => "BEGIN".toList
  | .tryCatch _ _ => "BEGIN TRY".toList
  | .ifElse condition _ _ => (ifStatement condition).upper
  | .while_ condition _ => (whileStatement condition).upper

/-- What the tracker makes of a body before it: one statement unless it begins like a block. -/
def TStmt.takenForSingle (body : TStmt) : Bool := !startsWith "BEGIN" body.firstUpper

def TArms.firstUpper : TArms → Option (List Char)
  | .nil => none
  | .cons header _ _ => some header.statement.upper

mutual

/-- The tracker follows the statement and leaves the stack as it was; `next` is the text after
it. -/
def TStmt.Tracked (top : Option (RegionKind × Bool)) (next : Option (List Char)) : TStmt → Prop
  | .simple _ => ¬IsSingle top
  | .block body =>
    body.Tracked (some (.block, false)) (some "END".toList) ∧ ¬ClosesOwner top next
  | .tryCatch body handler =>
    body.Tracked (some (.tryCatch, false)) (some "END TRY".toList) ∧
      handler.Tracked (some (.tryCatch, false)) (some "END CATCH".toList)
  -- Each body but the last leaves the region open, and the last one closes it.
  | .ifElse _ body arms =>
    (match arms.firstUpper with
      | some upper => body.Tracked (some (.if_, body.takenForSingle)) (some upper)
      | none => body.Drops (some (.if_, body.takenForSingle)) next) ∧
    arms.Tracked body.takenForSingle next
  | .while_ _ body => body.Drops (some (.loop, body.takenForSingle)) next

/-- The tracker follows the statement and closes the region it is the body of. -/
def TStmt.Drops (top : Option (RegionKind × Bool)) (next : Option (List Char)) : TStmt → Prop
  | .simple _ => IsSingle top
  | .block body =>
    body.Tracked (some (.block, false)) (some "END".toList) ∧ ClosesOwner top next
  | _ => False

def TStmts.Tracked (top : Option (RegionKind × Bool)) (next : Option (List Char)) : TStmts → Prop
  | .nil => True
  | .cons first rest =>
    first.Tracked top (nextUpper next rest.render) ∧ rest.Tracked top next

def TArms.Tracked (single : Bool) (next : Option (List Char)) : TArms → Prop
  | .nil => True
  | .cons _ body rest =>
    (match rest.firstUpper with
      | some upper => body.Tracked (some (.if_, single)) (some upper)
      | none => body.Drops (some (.if_, single)) next) ∧
    rest.Tracked single next

end

/-! ## Single statements -/

section Statements

variable {next : Option (List Char)} {node n m : Nat} {frame : RegionFrame}
  {frames stack out : List RegionFrame}

theorem TStmt.nextUpper_render (s : TStmt) (rest : List ClassifiedStatement) :
    nextUpper next (s.render ++ rest) = some s.firstUpper := by
  cases s with
  | _ => rfl

theorem TArms.nextUpper_render (arms : TArms) :
    nextUpper next arms.render = match arms.firstUpper with
      | some upper => some upper
      | none => next := by
  cases arms with
  | nil => rfl
  | cons header body rest => rfl

theorem TArms.eq_nil {arms : TArms} (h : arms.firstUpper = none) : arms = .nil := by
  cases arms with
  | nil => rfl
  | cons header body rest => exact nomatch h

theorem ifFrame_single (condition : List Char) (body : TStmt) (rest : List ClassifiedStatement)
    (next : Option (List Char)) (node : Nat) :
    (ifFrame .sqlserverTsql node condition (nextUpper next (body.render ++ rest))).singleStatement =
      body.takenForSingle := by
  rw [body.nextUpper_render]
  rfl

theorem ElseHeader.beginsArm (header : ElseHeader) :
    ∃ kinds, .if_ ∈ kinds ∧ BeginsArm kinds header.statement := by
  cases header with
  | elseIf condition =>
    refine ⟨[.if_], by simp, fun _ => rfl, fun dialect node next frames hne => ?_⟩
    obtain ⟨frame, hframe⟩ := Option.ne_none_iff_exists'.mp hne
    refine
      ⟨_, fun frame =>
        activate_activates node (orText (some condition) frame.conditionText) frame, ?_⟩
    simp only [afterNode, ElseHeader.statement, hframe]
  | else_ => exact ArmHeader.else_.beginsArm

def simpleBegin : BeginText := ⟨"BEGIN".toList, rfl, rfl⟩

theorem endForm_end : endForm "END".toList = .plain := by decide

theorem closeSingle_single {kind : SemanticNodeKind} (hsingle : IsSingle (topFrame frames))
    (hblock : kind ≠ .block) (hcondition : kind ≠ .condition) :
    (closeSingle .sqlserverTsql kind frames).frames = frames.tail := by
  cases frames with
  | nil => exact nomatch hsingle
  | cons frame frames =>
    have hframe : frame.singleStatement = true := Option.some.inj hsingle
    unfold closeSingle
    dsimp only
    rw [if_pos ⟨rfl, hframe, hblock, hcondition⟩]
    rfl

theorem closeSingle_not_single {kind : SemanticNodeKind} (hsingle : ¬IsSingle (topFrame frames)) :
    (closeSingle .sqlserverTsql kind frames).frames = frames := by
  cases frames with
  | nil => rfl
  | cons frame frames =>
    unfold closeSingle
    dsimp only
    rw [if_neg fun h => hsingle (congrArg some h.2.1)]

/-- When the end of a block closes its owner. -/
theorem closeBlock_tsql {block : RegionFrame} (hkind : block.ownerKind = topKind frames)
    (href : block.ownerRef = frames.head?.map RegionFrame.rootRef) :
    (ClosesOwner (topFrame frames) next →
        (closeBlock .sqlserverTsql next block frames).1 = frames.tail) ∧
      (¬ClosesOwner (topFrame frames) next →
        (closeBlock .sqlserverTsql next block frames).1 = frames) := by
  cases frames with
  | nil =>
    refine ⟨fun h => absurd rfl h.1, fun _ => ?_⟩
    have hnone : block.ownerKind = none := hkind
    simp [closeBlock, hnone]
  | cons owner frames =>
    have howner : block.ownerKind = some owner.kind := hkind
    by_cases hhandler : owner.kind = .handler
    · refine ⟨fun _ => closeBlock_handler (howner.trans (congrArg some hhandler)) hhandler href,
        fun h => absurd ⟨Option.some_ne_none _, fun hif => ?_⟩ h⟩
      have hif := Option.some.inj hif.1
      exact nomatch hhandler.symm.trans hif
    · have hnearest : nearest [owner.kind] (owner :: frames) = some owner :=
        List.find?_cons_of_pos (by simp)
      unfold closeBlock
      dsimp only
      rw [howner, if_neg fun h => hhandler (Option.some.inj h), if_pos rfl]
      dsimp only
      rw [hnearest]
      dsimp only
      by_cases hnext : owner.kind = .if_ ∧ nextStartsWith "ELSE" next = true
      · rw [if_neg fun h => h.2 hnext]
        exact ⟨fun h => absurd ⟨congrArg some hnext.1, hnext.2⟩ h.2, fun _ => rfl⟩
      · rw [if_pos ⟨href.symm, hnext⟩]
        refine ⟨fun _ => rfl, fun h => absurd ⟨Option.some_ne_none _, fun hif => ?_⟩ h⟩
        exact hnext ⟨Option.some.inj hif.1, hif.2⟩

theorem afterNode_simpleBegin :
    (afterNode .sqlserverTsql node (blockStatement "BEGIN".toList) next frames).frames =
      { kind := .block, rootRef := node, activeRef := node, ownerKind := topKind frames,
        ownerRef := frames.head?.map RegionFrame.rootRef } :: frames :=
  afterNode_begin simpleBegin

end Statements

/-! ## Trees the tracker follows -/

mutual

/-- A tracked statement leaves the stack as it was. -/
theorem TStmt.run_of_tracked : ∀ (s : TStmt) {next : Option (List Char)} {node : Nat}
    {frames : List RegionFrame}, s.Tracked (topFrame frames) next →
      Run .sqlserverTsql next node s.render frames (s.parents node (currentParent frames)) frames
  | .simple s, next, node, frames, h => by
      refine .cons s.parentFor ?_ .nil
      rw [s.afterNode]
      exact closeSingle_not_single h
  | .block body, next, node, frames, h => by
      refine .cons rfl afterNode_simpleBegin (.append (body.run_of_tracked h.1) ?_)
      exact run_end rfl
        ((closeForEnd_block endForm_end rfl).trans ((closeBlock_tsql rfl rfl).2 h.2))
  | .tryCatch body handler, next, node, frames, h => by
      obtain ⟨hbody, hhandler⟩ := h
      refine .cons rfl (afterNode_beginTry rfl rfl) (.append (body.run_of_tracked hbody) ?_)
      refine .cons rfl ((afterNode_end rfl).trans (closeForEnd_endTry endForm_endTry)) ?_
      obtain ⟨hparent, frame, hactivates, hafter⟩ := @BeginsArm.activates_top _ _
        { kind := .tryCatch, rootRef := node, activeRef := node,
            conditionText := some "TRY".toList }
        frames beginsArm_beginCatch (List.mem_singleton_self _) .sqlserverTsql
          (node + 1 + body.size + 1)
        (nextUpper next (handler.render ++ [blockStatement "END CATCH".toList]))
      have htop : topFrame (frame :: frames) = some (.tryCatch, false) := by
        show some (frame.kind, frame.singleStatement) = _
        rw [hactivates.kind, hactivates.single]
      have hhandlerRun := @TStmts.run_of_tracked handler (some "END CATCH".toList)
        (node + 1 + body.size + 1 + 1) (frame :: frames) (htop ▸ hhandler)
      have hparents : currentParent (frame :: frames) = some (node + 1 + body.size + 1) :=
        congrArg some hactivates.active
      rw [hparents] at hhandlerRun
      refine .cons hparent hafter (hhandlerRun.append ?_)
      rw [← hparents]
      exact run_end rfl (closeForEnd_explicit endForm_endCatch hactivates.kind)
  | .ifElse condition body arms, next, node, frames, h => by
      obtain ⟨hbody, harms⟩ := h
      have hsingle := ifFrame_single condition body arms.render next node
      refine .cons rfl (afterNode_if condition) ?_
      generalize hframe : ifFrame .sqlserverTsql node condition _ = frame at hsingle
      have hkind : frame.kind = .if_ := by rw [← hframe]; rfl
      have hroot : frame.rootRef = node := by rw [← hframe]; rfl
      have hparents : currentParent (frame :: frames) = some node := by rw [← hframe]; rfl
      have htop : topFrame (frame :: frames) = some (.if_, body.takenForSingle) := by
        show some (frame.kind, frame.singleStatement) = _
        rw [hkind, hsingle]
      cases hupper : arms.firstUpper with
      | none =>
        obtain rfl := TArms.eq_nil hupper
        rw [hupper, ← htop] at hbody
        have hrun := @TStmt.run_of_drops body next (node + 1) (frame :: frames) hbody
        rw [hparents] at hrun
        exact hrun.append .nil
      | some upper =>
        rw [hupper, ← htop] at hbody
        have hrun := @TStmt.run_of_tracked body (some upper) (node + 1) (frame :: frames) hbody
        rw [hparents] at hrun
        rw [← hsingle] at harms
        have harmsRun := @TArms.run_of_tracked arms next (node + 1 + body.size) frame frames hkind
          (by rw [hupper]; exact Option.some_ne_none _) harms
        rw [hroot] at harmsRun
        refine .append ?_ harmsRun
        rw [arms.nextUpper_render, hupper]
        exact hrun
  | .while_ condition body, next, node, frames, h => by
      refine .cons rfl (afterNode_loop _ _) ?_
      have hnext : nextUpper next body.render = some body.firstUpper := by
        rw [← List.append_nil body.render]
        exact body.nextUpper_render []
      rw [hnext]
      exact body.run_of_drops h

theorem TStmt.run_of_drops : ∀ (s : TStmt) {next : Option (List Char)} {node : Nat}
    {frames : List RegionFrame}, s.Drops (topFrame frames) next →
      Run .sqlserverTsql next node s.render frames
      (s.parents node (currentParent frames)) frames.tail
  | .simple s, next, node, frames, h => by
      have hordinary := s.ordinary
      refine .cons s.parentFor ?_ .nil
      rw [s.afterNode]
      refine closeSingle_single h (fun hkind => ?_) fun hkind => ?_
      · simp [hkind] at hordinary
      · simp [hkind] at hordinary
  | .block body, next, node, frames, h => by
      refine .cons rfl afterNode_simpleBegin (.append (body.run_of_tracked h.1) ?_)
      exact run_end rfl
        ((closeForEnd_block endForm_end rfl).trans ((closeBlock_tsql rfl rfl).1 h.2))

theorem TStmts.run_of_tracked : ∀ (s : TStmts) {next : Option (List Char)} {node : Nat}
    {frames : List RegionFrame}, s.Tracked (topFrame frames) next →
      Run .sqlserverTsql next node s.render frames (s.parents node (currentParent frames)) frames
  | .nil, _, _, _, _ => .nil
  | .cons first rest, _, _, _, h => .append (first.run_of_tracked h.1) (rest.run_of_tracked h.2)

theorem TArms.run_of_tracked : ∀ (arms : TArms) {next : Option (List Char)} {node : Nat}
    {frame : RegionFrame} {frames : List RegionFrame}, frame.kind = .if_ → arms.firstUpper ≠ none →
      arms.Tracked frame.singleStatement next →
      Run .sqlserverTsql next node arms.render (frame :: frames)
      (arms.parents frame.rootRef node) frames
  | .nil, _, _, _, _, _, hne, _ => absurd rfl hne
  | .cons header body rest, next, node, frame, frames, hkind, _, h => by
      obtain ⟨hbody, hrest⟩ := h
      obtain ⟨kinds, hmem, hbegins⟩ := header.beginsArm
      obtain ⟨hparent, frame', hactivates, hafter⟩ :=
        @BeginsArm.activates_top kinds header.statement frame frames hbegins (hkind ▸ hmem)
          .sqlserverTsql node (nextUpper next (body.render ++ rest.render))
      obtain rfl := hactivates.active
      have hkind' : frame'.kind = .if_ := hactivates.kind.trans hkind
      have htop : topFrame (frame' :: frames) = some (.if_, frame.singleStatement) := by
        show some (frame'.kind, frame'.singleStatement) = _
        rw [hkind', hactivates.single]
      refine .cons hparent hafter ?_
      cases hupper : rest.firstUpper with
      | none =>
        obtain rfl := TArms.eq_nil hupper
        rw [hupper, ← htop] at hbody
        exact .append (body.run_of_drops hbody) .nil
      | some upper =>
        rw [hupper, ← htop] at hbody
        rw [← hactivates.single] at hrest
        have hrun :=
          @TArms.run_of_tracked rest next (frame'.activeRef + 1 + body.size) frame' frames
          hkind' (by rw [hupper]; exact Option.some_ne_none _) hrest
        rw [hactivates.root] at hrun
        refine .append ?_ hrun
        rw [rest.nextUpper_render, hupper]
        exact body.run_of_tracked hbody

end

/-! ## Trees the tracker gets right -/

mutual

theorem TStmt.parents_length : ∀ (s : TStmt) (node : Nat) (parent : Option Nat),
    (s.parents node parent).length = s.render.length
  | .simple _, _, _ => rfl
  | .block body, _, _ => by
      simp only [TStmt.parents, TStmt.render, List.length_cons, List.length_append, List.length_nil,
        body.parents_length]
  | .tryCatch body handler, _, _ => by
      simp only [TStmt.parents, TStmt.render, List.length_cons, List.length_append, List.length_nil,
        body.parents_length, handler.parents_length]
  | .ifElse _ body arms, _, _ => by
      simp only [TStmt.parents, TStmt.render, List.length_cons, List.length_append,
        body.parents_length, arms.parents_length]
  | .while_ _ body, _, _ => by
      simp only [TStmt.parents, TStmt.render, List.length_cons, body.parents_length]

theorem TStmts.parents_length : ∀ (s : TStmts) (node : Nat) (parent : Option Nat),
    (s.parents node parent).length = s.render.length
  | .nil, _, _ => rfl
  | .cons first rest, _, _ => by
      simp only [TStmts.parents, TStmts.render, List.length_append, first.parents_length,
        rest.parents_length]

theorem TArms.parents_length : ∀ (arms : TArms) (root node : Nat),
    (arms.parents root node).length = arms.render.length
  | .nil, _, _ => rfl
  | .cons _ body rest, _, _ => by
      simp only [TArms.parents, TArms.render, List.length_cons, List.length_append,
        body.parents_length, rest.parents_length]

end

section Outcome

variable {next : Option (List Char)} {node n m : Nat} {frame : RegionFrame}
  {frames stack mid out : List RegionFrame}

theorem TStmt.currentParent_of_run (s : TStmt) {parent : Option Nat}
    (h : Run .sqlserverTsql next node s.render stack (s.parents node parent) out) :
    currentParent stack = parent := by
  cases s with
  | simple s =>
    rw [← h.cons_inv.1]
    exact s.parentFor.symm
  | _ => exact h.cons_inv.1

theorem TArms.not_run {arms : TArms} (hne : arms.firstUpper ≠ none) (hkind : frame.kind = .if_)
    (hbelow : Below n (frame :: frames))
    (hoff : stack = frames ∨ LeftOpen n node (frame :: frames) stack) :
    ¬Run .sqlserverTsql next node arms.render stack (arms.parents frame.rootRef node) out := by
  intro h
  cases arms with
  | nil => exact hne rfl
  | cons header body rest =>
    obtain ⟨kinds, hmem, hbegins⟩ := header.beginsArm
    obtain ⟨hparent, hrest⟩ := h.cons_inv
    rcases hoff with rfl | ⟨extra, hextraNe, hextra, rfl⟩
    · rw [hbegins.parent] at hparent
      exact (Closed.of_suffix (List.suffix_refl _)).rootOfNearest_ne hbelow kinds hparent
    · have hroot : frame.rootRef < n := Nat.lt_of_le_of_lt hbelow.1 hbelow.2.1
      have hkinds := hbegins.kinds_of_parent hextra hroot hparent
      obtain ⟨-, frame', hactivates, hafter⟩ :=
        @BeginsArm.activates kinds header.statement frame extra
        frames hbegins (hkind ▸ hmem) hkinds .sqlserverTsql node
        (nextUpper next (body.render ++ rest.render))
      obtain ⟨mid, hbody, -⟩ := hrest.append_inv (body.parents_length _ _)
      rw [hafter] at hbody
      -- The body shows what was left open.
      have hleft : LeftOpen n node (frame' :: frames) (extra ++ frame' :: frames) :=
        ⟨extra, hextraNe, hextra, rfl⟩
      obtain ⟨x, hx, -, hhigh⟩ := hleft.currentParent
      have := Option.some.inj (hx.symm.trans (body.currentParent_of_run hbody))
      omega

/-- What a statement leaves, where every statement in it gets its parent. -/
def Outcome (tracked drops : Prop) (n m : Nat) (frames out : List RegionFrame) : Prop :=
  (tracked ∧ out = frames) ∨ (drops ∧ frames ≠ [] ∧ out = frames.tail) ∨ LeftOpen n m frames out

theorem currentParent_ne_of_outcome {drops : Prop} (hbelow : Below n frames)
    (h : (drops ∧ frames ≠ [] ∧ out = frames.tail) ∨ LeftOpen n m frames out) :
    currentParent out ≠ currentParent frames := by
  rcases h with ⟨-, hne, rfl⟩ | h
  · cases frames with
    | nil => exact absurd rfl hne
    | cons frame frames => exact (Closed.of_suffix (List.suffix_refl _)).currentParent_ne hbelow
  · exact h.currentParent_ne hbelow

theorem outcome_arms {body : TStmt} {arms : TArms} {single : Bool} (hkind : frame.kind = .if_)
    (hbelow : Below node (frame :: frames)) (hle : n ≤ frame.rootRef)
    (hbody : Outcome (body.Tracked (some (.if_, single)) (nextUpper next arms.render))
      (body.Drops (some (.if_, single)) (nextUpper next arms.render)) node (node + body.size)
      (frame :: frames) mid)
    (hrun : Run .sqlserverTsql next (node + body.size) arms.render mid
      (arms.parents frame.rootRef (node + body.size)) out)
    (harms : arms.firstUpper ≠ none → mid = frame :: frames →
      arms.Tracked single next ∧ out = frames ∨ LeftOpen n m frames out)
    (hm : node + body.size + arms.size ≤ m) :
    ((match arms.firstUpper with
      | some upper => body.Tracked (some (.if_, single)) (some upper)
      | none => body.Drops (some (.if_, single)) next) ∧ arms.Tracked single next) ∧ out = frames ∨
      LeftOpen n m frames out := by
  have hlow := hbelow.1
  have hhigh := hbelow.2.1
  cases hupper : arms.firstUpper with
  | none =>
    obtain rfl := TArms.eq_nil hupper
    obtain rfl := hrun.nil_inv
    rcases hbody with ⟨-, rfl⟩ | ⟨hdrops, -, rfl⟩ | ⟨extra, hne, hextra, rfl⟩
    · refine .inr ⟨[frame], List.cons_ne_nil _ _, fun other hmem => ?_, rfl⟩
      rw [List.mem_singleton.mp hmem]
      omega
    · exact .inl ⟨⟨hdrops, trivial⟩, rfl⟩
    · refine .inr ⟨extra ++ [frame], by simp, fun other hmem => ?_, by simp⟩
      rcases List.mem_append.mp hmem with hmem | hmem
      · have := hextra other hmem
        omega
      · rw [List.mem_singleton.mp hmem]
        omega
  | some upper =>
    have hne : arms.firstUpper ≠ none := by
      rw [hupper]
      exact Option.some_ne_none _
    rw [arms.nextUpper_render, hupper] at hbody
    rcases hbody with ⟨htracked, hmid⟩ | ⟨-, -, hmid⟩ | hleft
    · rcases harms hne hmid with ⟨harms, hout⟩ | hleft
      · exact .inl ⟨⟨htracked, harms⟩, hout⟩
      · exact .inr hleft
    · exact absurd hrun (TArms.not_run hne hkind hbelow (.inl hmid))
    · exact absurd hrun (TArms.not_run hne hkind hbelow (.inr hleft))

theorem tracked_of_end {body : TStmts} {top : Option (RegionKind × Bool)}
    {close : ClassifiedStatement} {rest : List ClassifiedStatement} {parents : List (Option Nat)}
    (h : Run .sqlserverTsql next node (body.render ++ close :: rest) frames
      (body.parents node (currentParent frames) ++ currentParent frames :: parents) out)
    (hclose : ∀ stack, parentFor close stack = currentParent stack)
    (houtcome : ∀ {mid}, Run .sqlserverTsql (some close.upper) node body.render frames
      (body.parents node (currentParent frames)) mid →
        body.Tracked top (some close.upper) ∧ mid = frames ∨
        currentParent mid ≠ currentParent frames) :
    body.Tracked top (some close.upper) ∧
      Run .sqlserverTsql next (node + body.size)
      (close :: rest) frames (currentParent frames :: parents)
        out := by
  obtain ⟨mid, hbody, hrest⟩ := h.append_inv (body.parents_length _ _)
  rcases houtcome hbody with ⟨htracked, rfl⟩ | hne
  · exact ⟨htracked, hrest⟩
  · have hparent := hrest.cons_inv.1
    rw [hclose] at hparent
    exact absurd hparent hne

end Outcome

mutual

/-- Where every statement gets its parent, a statement leaves the stack as it was, or closes the
region it is the body of, or leaves a region open. -/
theorem TStmt.outcome : ∀ (s : TStmt) {next : Option (List Char)} {node : Nat}
    {frames out : List RegionFrame}, Below node frames →
    Run .sqlserverTsql next node s.render frames (s.parents node (currentParent frames)) out →
      Outcome (s.Tracked (topFrame frames) next)
      (s.Drops (topFrame frames) next) node (node + s.size)
        frames out
  | .simple s, next, node, frames, out, _, h => by
      have hout := h.singleton_inv.2
      rw [s.afterNode] at hout
      have hordinary := s.ordinary
      by_cases hsingle : IsSingle (topFrame frames)
      · refine .inr (.inl ⟨hsingle, fun hnil => ?_, ?_⟩)
        · rw [hnil] at hsingle
          exact nomatch hsingle
        · rw [← hout]
          refine closeSingle_single hsingle (fun hkind => ?_) fun hkind => ?_
          · simp [hkind] at hordinary
          · simp [hkind] at hordinary
      · exact .inl ⟨hsingle, by rw [← hout]; exact closeSingle_not_single hsingle⟩
  | .block body, next, node, frames, out, hbelow, h => by
      have h := h.cons_inv.2
      rw [afterNode_simpleBegin] at h
      obtain ⟨hbody, hend⟩ := tracked_of_end h (fun _ => rfl)
        (body.outcome (below_opened hbelow .block _ _ _ _))
      obtain rfl := run_end_inv rfl hend
      rw [closeForEnd_block endForm_end rfl]
      by_cases hcloses : ClosesOwner (topFrame frames) next
      · refine .inr (.inl ⟨⟨hbody, hcloses⟩, fun hnil => ?_, (closeBlock_tsql rfl rfl).1 hcloses⟩)
        rw [hnil] at hcloses
        exact hcloses.1 rfl
      · exact .inl ⟨⟨hbody, hcloses⟩, (closeBlock_tsql rfl rfl).2 hcloses⟩
  | .tryCatch body handler, next, node, frames, out, hbelow, h => by
      have h := h.cons_inv.2
      rw [afterNode_beginTry rfl rfl] at h
      obtain ⟨hbody, hcatch⟩ := tracked_of_end h (fun _ => rfl)
        (body.outcome (below_opened hbelow .tryCatch _ _ _ _))
      have hcatch := hcatch.cons_inv.2
      rw [afterNode_end rfl, closeForEnd_endTry endForm_endTry] at hcatch
      obtain ⟨frame, hactivates, hafter⟩ := (@BeginsArm.activates_top _ _
        { kind := .tryCatch, rootRef := node, activeRef := node,
            conditionText := some "TRY".toList }
        frames beginsArm_beginCatch (List.mem_singleton_self _) .sqlserverTsql
          (node + 1 + body.size + 1)
        (nextUpper next (handler.render ++ [blockStatement "END CATCH".toList]))).2
      have hhandlerRun := hcatch.cons_inv.2
      rw [hafter] at hhandlerRun
      have htop : topFrame (frame :: frames) = some (.tryCatch, false) := by
        show some (frame.kind, frame.singleStatement) = _
        rw [hactivates.kind, hactivates.single]
      have hparents : currentParent (frame :: frames) = some (node + 1 + body.size + 1) :=
        congrArg some hactivates.active
      rw [← hparents] at hhandlerRun
      have hbelow'' : Below (node + 1 + body.size + 1 + 1) (frame :: frames) := by
        refine ⟨?_, ?_, ?_⟩
        · rw [hactivates.root, hactivates.active]
          dsimp only
          omega
        · rw [hactivates.active]
          exact Nat.lt_succ_self _
        · rw [hactivates.root]
          exact hbelow
      obtain ⟨hhandler, hend⟩ :=
        tracked_of_end hhandlerRun (fun _ => rfl) (handler.outcome hbelow'')
      obtain rfl := run_end_inv rfl hend
      rw [htop] at hhandler
      exact .inl ⟨⟨hbody, hhandler⟩, closeForEnd_explicit endForm_endCatch hactivates.kind⟩
  | .ifElse condition body arms, next, node, frames, out, hbelow, h => by
      have hsingle := ifFrame_single condition body arms.render next node
      have h := h.cons_inv.2
      rw [afterNode_if] at h
      generalize hframe : ifFrame .sqlserverTsql node condition _ = frame at hsingle h
      have hkind : frame.kind = .if_ := by rw [← hframe]; rfl
      have hroot : frame.rootRef = node := by rw [← hframe]; rfl
      have hparents : currentParent (frame :: frames) = some node := by rw [← hframe]; rfl
      have htop : topFrame (frame :: frames) = some (.if_, body.takenForSingle) := by
        show some (frame.kind, frame.singleStatement) = _
        rw [hkind, hsingle]
      have hbelow' : Below (node + 1) (frame :: frames) :=
        below_cons hbelow (Nat.le_refl _) hroot (by rw [← hframe]; rfl)
      have hsize : (TStmt.ifElse condition body arms).size = 1 + body.size + arms.size := by
        simp only [TStmt.size, TArms.size, TStmt.render, List.length_cons, List.length_append]
        omega
      obtain ⟨mid, hbody, harms⟩ := h.append_inv (body.parents_length _ _)
      rw [← hparents] at hbody
      have houtcome := body.outcome hbelow' hbody
      rw [htop] at houtcome
      have hle : node ≤ frame.rootRef := Nat.le_of_eq hroot.symm
      have hfollows : arms.firstUpper ≠ none → mid = frame :: frames →
          arms.Tracked body.takenForSingle next ∧ out = frames ∨
            LeftOpen node (node + (TStmt.ifElse condition body arms).size) frames out := by
        rintro hne rfl
        rw [← hsingle]
        have hrun : Run .sqlserverTsql next (node + 1 + body.size) arms.render (frame :: frames)
            (arms.parents frame.rootRef (node + 1 + body.size)) out := by
          rw [hroot]
          exact harms
        exact arms.outcome hkind (hbelow'.mono (Nat.le_add_right _ _)) hle (by rw [hsize]; omega)
          hne hrun
      have hrun : Run .sqlserverTsql next (node + 1 + body.size) arms.render mid
          (arms.parents frame.rootRef (node + 1 + body.size)) out := by
        rw [hroot]
        exact harms
      rcases outcome_arms hkind hbelow' hle houtcome hrun hfollows (by rw [hsize]; omega) with h | h
      · exact .inl h
      · exact .inr (.inr h)
  | .while_ condition body, next, node, frames, out, hbelow, h => by
      have h := h.cons_inv.2
      have hnext : nextUpper next body.render = some body.firstUpper := by
        rw [← List.append_nil body.render]
        exact body.nextUpper_render []
      change Run _ _ _ _ (loopFrame _ _ _ _ (nextUpper next body.render) :: frames) _ _ at h
      rw [hnext] at h
      have hsize : (TStmt.while_ condition body).size = 1 + body.size := by
        simp only [TStmt.size, TStmt.render, List.length_cons]
        omega
      rcases body.outcome (below_opened hbelow .loop _ _ _ _) h with
        ⟨-, rfl⟩ | ⟨hdrops, -, rfl⟩ | ⟨extra, hne, hextra, rfl⟩
      · refine .inr (.inr ⟨[_], List.cons_ne_nil _ _, fun other hmem => ?_, rfl⟩)
        rw [List.mem_singleton.mp hmem, hsize]
        dsimp only [loopFrame]
        omega
      · exact .inl ⟨hdrops, rfl⟩
      · refine .inr (.inr ⟨extra ++ [_], by simp, fun other hmem => ?_, by simp; rfl⟩)
        rw [hsize]
        rcases List.mem_append.mp hmem with hmem | hmem
        · have := hextra other hmem
          omega
        · rw [List.mem_singleton.mp hmem]
          dsimp only [loopFrame]
          omega

theorem TStmts.outcome : ∀ (s : TStmts) {next : Option (List Char)} {node : Nat}
    {frames out : List RegionFrame}, Below node frames →
    Run .sqlserverTsql next node s.render frames (s.parents node (currentParent frames)) out →
      s.Tracked (topFrame frames) next ∧ out = frames ∨ currentParent out ≠ currentParent frames
  | .nil, _, _, _, _, _, h => .inl ⟨trivial, h.nil_inv⟩
  | .cons first rest, next, node, frames, out, hbelow, h => by
      obtain ⟨mid, hfirst, hrest⟩ := h.append_inv (first.parents_length _ _)
      rcases first.outcome hbelow hfirst with ⟨htracked, rfl⟩ | hoff
      · rcases rest.outcome (hbelow.mono (Nat.le_add_right _ _)) hrest with ⟨hrest, hout⟩ | hne
        · exact .inl ⟨⟨htracked, hrest⟩, hout⟩
        · exact .inr hne
      · have hne := currentParent_ne_of_outcome hbelow hoff
        cases rest with
        | nil =>
          obtain rfl := hrest.nil_inv
          exact .inr hne
        | cons second others =>
          -- The next statement gets the wrong parent.
          obtain ⟨_, hsecond, -⟩ := hrest.append_inv (second.parents_length _ _)
          exact absurd (second.currentParent_of_run hsecond) hne

/-- The arms are tracked, or something is left open. -/
theorem TArms.outcome : ∀ (arms : TArms) {next : Option (List Char)} {node n m : Nat}
    {frame : RegionFrame} {frames out : List RegionFrame}, frame.kind = .if_ →
    Below node (frame :: frames) → n ≤ frame.rootRef → node + arms.size ≤ m →
    arms.firstUpper ≠ none →
    Run .sqlserverTsql next node arms.render (frame :: frames)
    (arms.parents frame.rootRef node) out →
      arms.Tracked frame.singleStatement next ∧ out = frames ∨ LeftOpen n m frames out
  | .nil, _, _, _, _, _, _, _, _, _, _, _, hne, _ => absurd rfl hne
  | .cons header body rest, next, node, n, m, frame, frames, out, hkind, hbelow, hle, hm, _, h => by
      obtain ⟨kinds, hmem, hbegins⟩ := header.beginsArm
      have h := h.cons_inv.2
      obtain ⟨frame', hactivates, hafter⟩ :=
        (@BeginsArm.activates_top kinds header.statement frame frames
        hbegins (hkind ▸ hmem) .sqlserverTsql node (nextUpper next (body.render ++ rest.render))).2
      obtain rfl := hactivates.active
      rw [hafter] at h
      have hkind' : frame'.kind = .if_ := hactivates.kind.trans hkind
      have htop : topFrame (frame' :: frames) = some (.if_, frame.singleStatement) := by
        show some (frame'.kind, frame'.singleStatement) = _
        rw [hkind', hactivates.single]
      have hbelow' : Below (frame'.activeRef + 1) (frame' :: frames) := by
        have := hbelow.1
        have := hbelow.2.1
        refine ⟨?_, Nat.lt_succ_self _, ?_⟩
        · rw [hactivates.root]
          omega
        · rw [hactivates.root]
          exact hbelow.2.2
      have hsize : (TArms.cons header body rest).size = 1 + body.size + rest.size := by
        simp only [TStmt.size, TArms.size, TArms.render, List.length_cons, List.length_append]
        omega
      have hbodySize : body.size = body.render.length := rfl
      obtain ⟨mid, hbody, hrest⟩ := h.append_inv (body.parents_length _ _)
      have houtcome := body.outcome hbelow' hbody
      rw [htop] at houtcome
      rw [← hactivates.root] at hrest hle
      have hfollows : rest.firstUpper ≠ none → mid = frame' :: frames →
          rest.Tracked frame.singleStatement next ∧ out = frames ∨ LeftOpen n m frames out := by
        rintro hne rfl
        rw [← hactivates.single]
        exact rest.outcome hkind' (hbelow'.mono (Nat.le_add_right _ _)) hle (by omega) hne hrest
      exact outcome_arms hkind' hbelow' hle houtcome hrest hfollows (by omega)

end

/-! ## Exact tracking -/

/-- The tracker gives the statements these parents and leaves the stack as it was. -/
def Exact (dialect : DialectId) (node : Nat) (frames : List RegionFrame)
    (stmts : List ClassifiedStatement) (parents : List (Option Nat)) : Prop :=
  Run dialect none node stmts frames parents frames

instance (dialect : DialectId) (node : Nat) (frames : List RegionFrame)
    (stmts : List ClassifiedStatement) (parents : List (Option Nat)) :
    Decidable (Exact dialect node frames stmts parents) :=
  inferInstanceAs (Decidable (_ = _))

theorem Stmts.exact_iff {dialect : DialectId} (hdialect : dialect ≠ .sqlserverTsql) {node : Nat}
    {frames : List RegionFrame} (hbelow : Below node frames) (s : Stmts) :
    Exact dialect node frames s.render (s.parents node (currentParent frames)) ↔
      s.Tracked (topKind frames) := by
  constructor
  · intro h
    rcases s.outcome hdialect hbelow h with htracked | hoff
    · exact htracked
    · exact absurd rfl (hoff.currentParent_ne hbelow)
  · exact s.run_of_tracked hdialect

theorem TStmts.exact_iff {node : Nat} {frames : List RegionFrame} (hbelow : Below node frames)
    (s : TStmts) :
    Exact .sqlserverTsql node frames s.render (s.parents node (currentParent frames)) ↔
      s.Tracked (topFrame frames) none := by
  constructor
  · intro h
    rcases s.outcome hbelow h with ⟨htracked, -⟩ | hne
    · exact htracked
    · exact absurd rfl hne
  · exact s.run_of_tracked

/-- From any stack of open regions the tracker is exact for just the trees it follows. -/
theorem regions_exact_iff (dialect : DialectId) (node : Nat) (frames : List RegionFrame)
    (hbelow : Below node frames) :
    (dialect ≠ .sqlserverTsql → ∀ s : Stmts,
      (Exact dialect node frames s.render (s.parents node (currentParent frames)) ↔
        s.Tracked (topKind frames))) ∧
    (dialect = .sqlserverTsql → ∀ s : TStmts,
      (Exact dialect node frames s.render (s.parents node (currentParent frames)) ↔
        s.Tracked (topFrame frames) none)) := by
  refine ⟨fun hdialect s => s.exact_iff hdialect hbelow, ?_⟩
  rintro rfl s
  exact s.exact_iff hbelow

def setStatement : SimpleStatement := ⟨⟨.assignment, .none, none, "SET X".toList⟩, by decide⟩

/-- `IF A` with a block for its body. -/
def blockBody : TStmts :=
  .cons (.ifElse ['A'] (.block (.cons (.simple setStatement) .nil)) .nil) .nil

theorem block_body_exact :
    Exact .sqlserverTsql 1 [] blockBody.render (blockBody.parents 1 none) :=
  ((regions_exact_iff .sqlserverTsql 1 [] trivial).2 rfl blockBody).mpr
    ⟨⟨⟨⟨by simp [TStmt.Tracked, IsSingle], trivial⟩,
      by simp [ClosesOwner, nextStartsWith, nextUpper, TStmts.render]⟩, trivial⟩,
      trivial⟩

/-- `IF A` with the body `IF B SET X`. -/
def nestedSingle : TStmts :=
  .cons (.ifElse ['A'] (.ifElse ['B'] (.simple setStatement) .nil) .nil) .nil

/-- The statement closes the inner `IF` only. -/
theorem nested_single_not_exact :
    ¬Exact .sqlserverTsql 1 [] nestedSingle.render (nestedSingle.parents 1 none) := by
  decide

end AtlasDb.Dialects
