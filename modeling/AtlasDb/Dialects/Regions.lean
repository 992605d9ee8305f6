import AtlasDb.Dialects.Scanner

/-!
# Structured regions

`atlas/dialects/structure.py`: the stack of the regions that are open, and what each statement does
to it. The frames stand innermost first, and a node is its number.
-/

namespace AtlasDb.Dialects

open Core

/-! ## Statements -/

/-- `DialectId` -/
inductive DialectId where
  | db2SqlPl
  | oraclePlsql
  | sqlserverTsql
  | postgresqlPlpgsql
  | mysqlStoredProgram
deriving DecidableEq

/-- `SemanticNodeKind` -/
inductive SemanticNodeKind where
  | entry
  | exit
  | block
  | declare
  | assignment
  | condition
  | case_
  | loop
  | loopControl
  | query
  | selectInto
  | resultSet
  | insert
  | update
  | delete
  | merge
  | upsert
  | call
  | dynamicSql
  | cursorDeclare
  | cursorOpen
  | cursorFetch
  | cursorClose
  | errorRaise
  | errorHandler
  | diagnostics
  | transactionBegin
  | commit
  | rollback
  | savepoint
  | return_
  | tempObject
  | securityContext
  | conditionDeclare
  | pragma
  | assert
  | bulkOperation
  | label
  | goto
  | lock
  | transactionSetting
  | message
  | truncate
  | ddl
  | callTarget
  | opaqueStatement
deriving DecidableEq

/-- `EdgeKind` -/
inductive EdgeKind where
  | next
  | true_
  | false_
  | branch
  | loopBody
  | loopBack
  | exception
  | calls
  | dataDependency
deriving DecidableEq

/-- `attrs["branch_kind"]` -/
inductive BranchKind where
  | none
  | if_
  | elsif
  | elseif
  | else_
  | when_
deriving DecidableEq

/-- A statement as the classifier leaves it: its kind, what the tracker reads of its attributes, and
its text in upper case. -/
structure ClassifiedStatement where
  kind : SemanticNodeKind
  branch : BranchKind := .none
  condition : Option (List Char) := none
  upper : List Char
deriving DecidableEq

/-! ## Frames -/

/-- `RegionFrame.kind` -/
inductive RegionKind where
  | if_
  | case_
  | loop
  | tryCatch
  | handler
  | block
deriving DecidableEq

/-- `RegionFrame` -/
structure RegionFrame where
  kind : RegionKind
  rootRef : Nat
  activeRef : Nat
  conditionText : Option (List Char) := none
  ownerKind : Option RegionKind := none
  ownerRef : Option Nat := none
  singleStatement : Bool := false
  statementsSeen : Nat := 0
deriving DecidableEq

def currentParent (frames : List RegionFrame) : Option Nat := frames.head?.map RegionFrame.activeRef

def nearest (kinds : List RegionKind) (frames : List RegionFrame) : Option RegionFrame :=
  frames.find? fun frame => frame.kind ∈ kinds

/-- The assignments to the fields of the nearest frame. -/
def updateNearest (kinds : List RegionKind) (update : RegionFrame → RegionFrame) :
    List RegionFrame → List RegionFrame
  | [] => []
  | frame :: frames =>
    if frame.kind ∈ kinds then update frame :: frames
    else frame :: updateNearest kinds update frames

def startsWith (start : String) (text : List Char) : Bool := start.toList.isPrefixOf text

/-- The root of the nearest frame, or else the current parent. -/
def rootOfNearest (kinds : List RegionKind) (frames : List RegionFrame) : Option Nat :=
  match nearest kinds frames with
  | some frame => some frame.rootRef
  | none => currentParent frames

/-- `parent_for`. -/
def parentFor (s : ClassifiedStatement) (frames : List RegionFrame) : Option Nat :=
  match s.kind with
  | .condition =>
    match s.branch with
    | .else_ => rootOfNearest [.if_, .case_] frames
    | .elsif | .elseif => rootOfNearest [.if_] frames
    | .when_ => rootOfNearest [.case_, .handler] frames
    | .none | .if_ => currentParent frames
  | .errorHandler =>
    if startsWith "BEGIN CATCH" s.upper then rootOfNearest [.tryCatch] frames
    else if startsWith "WHEN " s.upper then rootOfNearest [.handler] frames
    else currentParent frames
  | _ => currentParent frames

/-! ## Ends -/

/-- What an `END` closes. -/
inductive EndForm where
  | explicit (kind : RegionKind)
  | endTry
  | plain
deriving DecidableEq

/-- `upper.rstrip(";$").strip()` -/
def normalizedEnd (upper : List Char) : List Char :=
  Text.strip (upper.reverse.dropWhile fun c => c = ';' || c = '$').reverse

def endForm (upper : List Char) : EndForm :=
  let normalized := normalizedEnd upper
  if startsWith "END IF" normalized then .explicit .if_
  else if startsWithAny ["END LOOP", "END WHILE", "END REPEAT"] normalized then .explicit .loop
  else if startsWith "END CASE" normalized then .explicit .case_
  else if startsWith "END CATCH" normalized then .explicit .tryCatch
  else if startsWith "END TRY" normalized then .endTry
  else .plain

/-- Pops up to the first frame of the kind, with it: the frames left, and those popped. -/
def popThrough (kind : RegionKind) : List RegionFrame → List RegionFrame × List RegionFrame
  | [] => ([], [])
  | frame :: frames =>
    if frame.kind = kind then (frames, [frame])
    else ((popThrough kind frames).1, frame :: (popThrough kind frames).2)

def nextStartsWith (start : String) (next : Option (List Char)) : Bool :=
  next.elim false (startsWith start)

/-- The end of a `BEGIN` with nothing open in it. -/
def closeBlock (dialect : DialectId) (next : Option (List Char)) (block : RegionFrame)
    (frames : List RegionFrame) : List RegionFrame × List RegionFrame :=
  let popped := (frames.tail, block :: frames.take 1)
  if block.ownerKind = some .handler then
    match nearest [.handler] frames with
    | some owner => if some owner.rootRef = block.ownerRef then popped else (frames, [block])
    | none => (frames, [block])
  else if dialect = .sqlserverTsql then
    match block.ownerKind with
    | some kind =>
      match nearest [kind] frames with
      | some owner =>
        if some owner.rootRef = block.ownerRef ∧ ¬(kind = .if_ ∧ nextStartsWith "ELSE" next) then
          popped
        else (frames, [block])
      | none => (frames, [block])
    | none => (frames, [block])
  else (frames, [block])

/-- `_close_for_end`: the frames left, and those closed. -/
def closeForEnd (dialect : DialectId) (upper : List Char) (next : Option (List Char))
    (frames : List RegionFrame) : List RegionFrame × List RegionFrame :=
  match endForm upper with
  | .explicit kind => popThrough kind frames
  | .endTry => (frames, [])
  | .plain =>
    match frames with
    | [] => ([], [])
    | top :: frames =>
      if top.kind = .block then closeBlock dialect next top frames
      else if top.kind = .handler ∧ frames.head?.map RegionFrame.kind = some .block then
        (frames.tail, top :: frames.take 1)
      else (frames, [top])

/-! ## One statement -/

/-- What `after_node` leaves and returns. -/
structure AfterNode where
  frames : List RegionFrame
  edge : EdgeKind := .next
  condition : Option (List Char) := none
  closed : List RegionFrame := []

/-- A branch becomes the active arm of its region. -/
def RegionFrame.activate (node : Nat) (condition : Option (List Char)) (frame : RegionFrame) :
    RegionFrame :=
  { frame with activeRef := node, conditionText := condition, statementsSeen := 0 }

/-- `condition or other` -/
def orText (condition other : Option (List Char)) : Option (List Char) :=
  if condition = none ∨ condition = some [] then other else condition

/-- The end of `after_node`: the one statement of a T-SQL body closes it. -/
def closeSingle (dialect : DialectId) (kind : SemanticNodeKind) (frames : List RegionFrame) :
    AfterNode :=
  match frames with
  | [] => { frames }
  | frame :: rest =>
    if dialect = .sqlserverTsql ∧ frame.singleStatement = true ∧ kind ≠ .block ∧
        kind ≠ .condition then
      { frames := rest, closed := [{ frame with statementsSeen := frame.statementsSeen + 1 }] }
    else { frames }

/-- `after_node`. -/
def afterNode (dialect : DialectId) (node : Nat) (s : ClassifiedStatement)
    (next : Option (List Char)) (frames : List RegionFrame) : AfterNode :=
  let single := dialect = .sqlserverTsql && !nextStartsWith "BEGIN" next
  match s.kind with
  | .condition =>
    let onBranch (kinds : List RegionKind) (edge : EdgeKind) : AfterNode :=
      match nearest kinds frames with
      | some frame =>
        { frames := updateNearest kinds
            (fun frame => frame.activate node (orText s.condition frame.conditionText)) frames
          edge := if frame.kind = .case_ then .branch else edge
          condition := s.condition }
      | none => closeSingle dialect s.kind frames
    match s.branch with
    | .else_ => onBranch [.if_, .case_] .next
    | .elsif | .elseif => onBranch [.if_] .true_
    | .when_ =>
      match nearest [.case_, .handler] frames with
      | some frame =>
        { frames := updateNearest [.case_, .handler] (RegionFrame.activate node s.condition) frames
          edge := if frame.kind = .case_ then .branch else .exception
          condition := s.condition }
      | none => closeSingle dialect s.kind frames
    | .none | .if_ =>
      { frames := { kind := .if_, rootRef := node, activeRef := node, conditionText := s.condition,
                    singleStatement := single } :: frames
        edge := .true_
        condition := s.condition }
  | .case_ =>
    { frames := { kind := .case_, rootRef := node, activeRef := node,
                  conditionText := s.condition } :: frames
      edge := .branch
      condition := s.condition }
  | .loop =>
    { frames := { kind := .loop, rootRef := node, activeRef := node,
                  conditionText := orText s.condition (some s.upper),
                  singleStatement := single } :: frames
      edge := .loopBody
      condition := s.condition }
  | .errorHandler =>
    let push (kind : RegionKind) (condition : List Char) : List RegionFrame :=
      { kind := kind, rootRef := node, activeRef := node,
          conditionText := some condition } :: frames
    let handler : AfterNode :=
      { frames := push .handler s.upper, edge := .exception, condition := some s.upper }
    if (dialect = .mysqlStoredProgram ∨ dialect = .db2SqlPl) ∧ startsWith "DECLARE " s.upper ∧
        Text.containsList " HANDLER ".toList (' ' :: (s.upper ++ [' '])) ∧
        nextStartsWith "BEGIN" next = false then { frames }
    else if startsWith "BEGIN TRY" s.upper then { frames := push .tryCatch "TRY".toList }
    else if startsWith "BEGIN CATCH" s.upper then
      match nearest [.tryCatch] frames with
      | some _ =>
        { frames := updateNearest [.tryCatch]
            (RegionFrame.activate node (some "CATCH".toList)) frames
          edge := .exception
          condition := some "CATCH".toList }
      | none => handler
    else if startsWith "WHEN " s.upper then
      match nearest [.handler] frames with
      | some _ =>
        { frames := updateNearest [.handler] (RegionFrame.activate node s.condition) frames
          edge := .exception
          condition := s.condition }
      | none => handler
    else handler
  | .block =>
    if startsWith "BEGIN" s.upper ∧
        startsWithAny ["BEGIN TRY", "BEGIN CATCH", "BEGIN TRAN"] s.upper = false then
      let owner := frames.head?
      { frames := { kind := .block, rootRef := node, activeRef := node,
                    ownerKind := owner.map RegionFrame.kind,
                    ownerRef := owner.map RegionFrame.rootRef } :: frames }
    else if startsWith "END" s.upper then
      let closed := closeForEnd dialect s.upper next frames
      { frames := closed.1, closed := closed.2 }
    else closeSingle dialect s.kind frames
  | _ => closeSingle dialect s.kind frames

/-! ## A sequence of statements -/

/-- The text of the first statement, or what comes after them all. -/
def nextUpper (next : Option (List Char)) : List ClassifiedStatement → Option (List Char)
  | [] => next
  | s :: _ => some s.upper

/-- `parent_for` and `after_node` for each statement: the parents, and the frames left. -/
def feed (dialect : DialectId) (next : Option (List Char)) :
    Nat → List ClassifiedStatement → List RegionFrame → List (Option Nat) × List RegionFrame
  | _, [], frames => ([], frames)
  | node, s :: rest, frames =>
    let after := afterNode dialect node s (nextUpper next rest) frames
    let fed := feed dialect next (node + 1) rest after.frames
    (parentFor s frames :: fed.1, fed.2)

section Feed

variable {dialect : DialectId} {next : Option (List Char)} {node : Nat} {frames : List RegionFrame}

@[simp] theorem feed_length (stmts : List ClassifiedStatement) :
    (feed dialect next node stmts frames).1.length = stmts.length := by
  induction stmts generalizing node frames with
  | nil => rfl
  | cons s rest ih => exact congrArg (· + 1) ih

theorem feed_append (first second : List ClassifiedStatement) :
    feed dialect next node (first ++ second) frames =
      ((feed dialect (nextUpper next second) node first frames).1 ++
          (feed dialect next (node + first.length) second
            (feed dialect (nextUpper next second) node first frames).2).1,
        (feed dialect next (node + first.length) second
          (feed dialect (nextUpper next second) node first frames).2).2) := by
  induction first generalizing node frames with
  | nil => rfl
  | cons s rest ih =>
    have hnext : nextUpper next (rest ++ second) = nextUpper (nextUpper next second) rest := by
      cases rest with
      | nil => rfl
      | cons t rest => rfl
    have hnode : node + 1 + rest.length = node + (s :: rest).length := by
      rw [List.length_cons]
      omega
    rw [List.cons_append]
    simp only [feed, hnext, ih, hnode, List.cons_append]

/-- The parents and the frames that feeding the statements gives. -/
def Run (dialect : DialectId) (next : Option (List Char)) (node : Nat)
    (stmts : List ClassifiedStatement)
    (frames : List RegionFrame) (parents : List (Option Nat)) (out : List RegionFrame) : Prop :=
  feed dialect next node stmts frames = (parents, out)

namespace Run

variable {s : ClassifiedStatement} {first second : List ClassifiedStatement}
  {mid out : List RegionFrame} {parent : Option Nat} {parents parents' : List (Option Nat)}

theorem nil : Run dialect next node [] frames [] frames := rfl

theorem cons (hparent : parentFor s frames = parent)
    (hafter : (afterNode dialect node s (nextUpper next first) frames).frames = mid)
    (hrest : Run dialect next (node + 1) first mid parents out) :
    Run dialect next node (s :: first) frames (parent :: parents) out := by
  subst hparent hafter
  unfold Run at hrest ⊢
  rw [feed]
  simp only [hrest]

theorem append (hfirst : Run dialect (nextUpper next second) node first frames parents mid)
    (hsecond : Run dialect next (node + first.length) second mid parents' out) :
    Run dialect next node (first ++ second) frames (parents ++ parents') out := by
  unfold Run at hfirst hsecond ⊢
  rw [feed_append, hfirst, hsecond]

theorem nil_inv (h : Run dialect next node [] frames parents out) : out = frames :=
  (congrArg Prod.snd h).symm

theorem cons_inv (h : Run dialect next node (s :: first) frames (parent :: parents) out) :
    parentFor s frames = parent ∧ Run dialect next (node + 1) first
      (afterNode dialect node s (nextUpper next first) frames).frames parents out := by
  unfold Run at h ⊢
  rw [feed] at h
  obtain ⟨hparents, hout⟩ := Prod.mk.inj h
  obtain ⟨hparent, hparents⟩ := List.cons.inj hparents
  exact ⟨hparent, Prod.ext hparents hout⟩

theorem append_inv (h : Run dialect next node (first ++ second) frames (parents ++ parents') out)
    (hlength : parents.length = first.length) :
    ∃ mid, Run dialect (nextUpper next second) node first frames parents mid ∧
      Run dialect next (node + first.length) second mid parents' out := by
  unfold Run at h
  rw [feed_append] at h
  obtain ⟨hparents, hout⟩ := Prod.mk.inj h
  obtain ⟨hfirst, hsecond⟩ := List.append_inj hparents (by rw [feed_length, hlength])
  exact ⟨_, Prod.ext hfirst rfl, Prod.ext hsecond hout⟩

theorem unique (h : Run dialect next node first frames parents out)
    (h' : Run dialect next node first frames parents' mid) : out = mid := by
  unfold Run at h h'
  rw [h] at h'
  exact (Prod.mk.inj h').2

theorem singleton_inv (h : Run dialect next node [s] frames [parent] out) :
    parentFor s frames = parent ∧ (afterNode dialect node s next frames).frames = out := by
  obtain ⟨hparent, hrest⟩ := h.cons_inv
  exact ⟨hparent, hrest.nil_inv.symm⟩

end Run

end Feed

/-- The kind of the innermost open region. -/
def topKind (frames : List RegionFrame) : Option RegionKind := frames.head?.map RegionFrame.kind

/-- The frames are of earlier nodes, the outer ones of nodes before those of the inner ones. -/
def Below : Nat → List RegionFrame → Prop
  | _, [] => True
  | n, frame :: frames =>
    frame.rootRef ≤ frame.activeRef ∧ frame.activeRef < n ∧ Below frame.rootRef frames

theorem Below.mono {n m : Nat} {frames : List RegionFrame} (h : Below n frames) (hle : n ≤ m) :
    Below m frames := by
  cases frames with
  | nil => trivial
  | cons frame frames => exact ⟨h.1, by have := h.2.1; omega, h.2.2⟩

theorem Below.lt {n : Nat} {frames : List RegionFrame} (h : Below n frames) {frame : RegionFrame}
    (hmem : frame ∈ frames) : frame.rootRef < n ∧ frame.activeRef < n := by
  induction frames generalizing n with
  | nil => exact nomatch hmem
  | cons top frames ih =>
    obtain ⟨hroot, hactive, hrest⟩ := h
    rcases List.mem_cons.mp hmem with rfl | hmem
    · omega
    · have := ih hrest hmem
      omega

theorem currentParent_mem {frames : List RegionFrame} {node : Nat}
    (h : currentParent frames = some node) :
    ∃ frame ∈ frames, frame.activeRef = node := by
  cases frames with
  | nil => exact nomatch h
  | cons frame frames => exact ⟨frame, List.mem_cons_self, Option.some.inj h⟩

/-! ## Stacks that are off -/

/-- Frames were closed that should have stayed. -/
def Closed (frames stack : List RegionFrame) : Prop := stack <:+ frames ∧ stack ≠ frames

/-- Frames of the nodes from `n` up to `m` were left open. -/
def LeftOpen (n m : Nat) (frames stack : List RegionFrame) : Prop :=
  ∃ extra, extra ≠ [] ∧
    (∀ frame ∈ extra, n ≤ frame.rootRef ∧ n ≤ frame.activeRef ∧ frame.activeRef < m) ∧
    stack = extra ++ frames

def Off (n m : Nat) (frames stack : List RegionFrame) : Prop :=
  Closed frames stack ∨ LeftOpen n m frames stack

section Off

variable {n m : Nat} {frames stack : List RegionFrame} {frame : RegionFrame}

theorem Closed.suffix_tail (h : Closed (frame :: frames) stack) : stack <:+ frames := by
  rcases List.suffix_cons_iff.mp h.1 with heq | hsuffix
  · exact absurd heq h.2
  · exact hsuffix

theorem Closed.currentParent_ne (hbelow : Below n frames) (h : Closed frames stack) :
    currentParent stack ≠ currentParent frames := by
  cases frames with
  | nil => exact absurd (List.suffix_nil.mp h.1) h.2
  | cons frame frames =>
    intro heq
    obtain ⟨other, hmem, hactive⟩ := currentParent_mem heq
    have hlt := hbelow.2.2.lt (h.suffix_tail.subset hmem)
    have := hbelow.1
    omega

theorem LeftOpen.currentParent (h : LeftOpen n m frames stack) :
    ∃ node, currentParent stack = some node ∧ n ≤ node ∧ node < m := by
  obtain ⟨extra, hne, hextra, rfl⟩ := h
  cases extra with
  | nil => exact absurd rfl hne
  | cons frame extra =>
    have := hextra frame List.mem_cons_self
    exact ⟨frame.activeRef, rfl, this.2⟩

theorem LeftOpen.currentParent_ne (hbelow : Below n frames) (h : LeftOpen n m frames stack) :
    Dialects.currentParent stack ≠ Dialects.currentParent frames := by
  obtain ⟨node, hnode, hle, -⟩ := h.currentParent
  rw [hnode]
  intro heq
  obtain ⟨frame, hmem, hactive⟩ := currentParent_mem heq.symm
  have := hbelow.lt hmem
  omega

theorem Off.currentParent_ne (hbelow : Below n frames) (h : Off n m frames stack) :
    currentParent stack ≠ currentParent frames := by
  rcases h with h | h
  · exact h.currentParent_ne hbelow
  · exact h.currentParent_ne hbelow

theorem Closed.rootOfNearest_ne (hbelow : Below n (frame :: frames))
    (h : Closed (frame :: frames) stack)
    (kinds : List RegionKind) : rootOfNearest kinds stack ≠ some frame.rootRef := by
  have hlt (other : RegionFrame) (hmem : other ∈ stack) :
      other.rootRef < frame.rootRef ∧ other.activeRef < frame.rootRef :=
    hbelow.2.2.lt (h.suffix_tail.subset hmem)
  rw [rootOfNearest]
  split
  · next other hnearest =>
      have := hlt other (List.mem_of_find?_eq_some hnearest)
      rw [Ne, Option.some.injEq]
      omega
  · intro heq
    obtain ⟨other, hmem, hactive⟩ := currentParent_mem heq
    have := hlt other hmem
    omega

theorem Closed.of_suffix (h : stack <:+ frames) : Closed (frame :: frames) stack := by
  refine ⟨h.trans (List.suffix_cons frame frames), ?_⟩
  rintro rfl
  have := h.length_le
  rw [List.length_cons] at this
  omega

theorem LeftOpen.mono {n' m' : Nat} (h : LeftOpen n m frames stack) (hn : n' ≤ n) (hm : m ≤ m') :
    LeftOpen n' m' frames stack := by
  obtain ⟨extra, hne, hextra, hstack⟩ := h
  refine ⟨extra, hne, fun frame hmem => ?_, hstack⟩
  have := hextra frame hmem
  omega

theorem Off.mono {n' m' : Nat} (h : Off n m frames stack) (hn : n' ≤ n) (hm : m ≤ m') :
    Off n' m' frames stack :=
  h.imp_right fun h => h.mono hn hm

end Off

/-! ## Arms -/

/-- What the beginning of an arm makes of the frame of its region. -/
structure Activates (node : Nat) (before after : RegionFrame) : Prop where
  kind : after.kind = before.kind
  root : after.rootRef = before.rootRef
  active : after.activeRef = node
  ownerKind : after.ownerKind = before.ownerKind
  ownerRef : after.ownerRef = before.ownerRef
  single : after.singleStatement = before.singleStatement

theorem activate_activates (node : Nat) (condition : Option (List Char)) (frame : RegionFrame) :
    Activates node frame (frame.activate node condition) := ⟨rfl, rfl, rfl, rfl, rfl, rfl⟩

/-- The statement begins an arm of the nearest region of these kinds. -/
structure BeginsArm (kinds : List RegionKind) (s : ClassifiedStatement) : Prop where
  parent : ∀ frames, parentFor s frames = rootOfNearest kinds frames
  after : ∀ (dialect : DialectId) (node : Nat) (next : Option (List Char))
    (frames : List RegionFrame),
    nearest kinds frames ≠ none → ∃ update, (∀ frame, Activates node frame (update frame)) ∧
      (afterNode dialect node s next frames).frames = updateNearest kinds update frames

theorem nearest_append {kinds : List RegionKind} {frame : RegionFrame} (hkind : frame.kind ∈ kinds)
    {extra : List RegionFrame} (hextra : ∀ other ∈ extra, other.kind ∉ kinds)
    (frames : List RegionFrame) : nearest kinds (extra ++ frame :: frames) = some frame := by
  have hnone : extra.find? (fun frame => decide (frame.kind ∈ kinds)) = none :=
    List.find?_eq_none.mpr fun other hmem => by simpa using hextra other hmem
  rw [nearest, List.find?_append, hnone, Option.none_or,
    List.find?_cons_of_pos (by simpa using hkind)]

theorem updateNearest_append {kinds : List RegionKind} {frame : RegionFrame}
    (hkind : frame.kind ∈ kinds)
    {extra : List RegionFrame} (hextra : ∀ other ∈ extra, other.kind ∉ kinds)
    (update : RegionFrame → RegionFrame) (frames : List RegionFrame) :
    updateNearest kinds update (extra ++ frame :: frames) = extra ++ update frame :: frames := by
  induction extra with
  | nil => exact if_pos hkind
  | cons other extra ih =>
    rw [List.cons_append, updateNearest, if_neg (hextra other List.mem_cons_self),
      ih fun other hmem => hextra other (List.mem_cons_of_mem _ hmem)]
    rfl

namespace BeginsArm

variable {kinds : List RegionKind} {s : ClassifiedStatement} {frame : RegionFrame}
  {extra frames : List RegionFrame}

theorem activates (h : BeginsArm kinds s) (hkind : frame.kind ∈ kinds)
    (hextra : ∀ other ∈ extra, other.kind ∉ kinds) (dialect : DialectId) (node : Nat)
    (next : Option (List Char)) :
    parentFor s (extra ++ frame :: frames) = some frame.rootRef ∧
    ∃ frame', Activates node frame frame' ∧
      (afterNode dialect node s next (extra ++ frame :: frames)).frames = extra ++ frame' ::
      frames := by
  have hnearest := nearest_append hkind hextra frames
  refine ⟨?_, ?_⟩
  · rw [h.parent, rootOfNearest, hnearest]
  · obtain ⟨update, hupdate, hframes⟩ := h.after dialect node next _ (by rw [hnearest]; simp)
    exact ⟨update frame, hupdate frame,
      hframes.trans (updateNearest_append hkind hextra update frames)⟩

theorem activates_top (h : BeginsArm kinds s) (hkind : frame.kind ∈ kinds) (dialect : DialectId)
    (node : Nat) (next : Option (List Char)) :
    parentFor s (frame :: frames) = some frame.rootRef ∧ ∃ frame', Activates node frame frame' ∧
      (afterNode dialect node s next (frame :: frames)).frames = frame' :: frames :=
  @activates kinds s frame [] frames h hkind (fun _ hmem => nomatch hmem) dialect node next

theorem kinds_of_parent (h : BeginsArm kinds s) {n m : Nat}
    (hextra : ∀ other ∈ extra, n ≤ other.rootRef ∧ n ≤ other.activeRef ∧ other.activeRef < m)
    (hroot : frame.rootRef < n)
    (hparent : parentFor s (extra ++ frame :: frames) = some frame.rootRef) :
    ∀ other ∈ extra, other.kind ∉ kinds := by
  intro other hmem hkind
  rw [h.parent, rootOfNearest] at hparent
  cases hfind : extra.find? fun frame => decide (frame.kind ∈ kinds) with
  | none =>
    have := List.find?_eq_none.mp hfind other hmem
    simp [hkind] at this
  | some found =>
    have hnearest : nearest kinds (extra ++ frame :: frames) = some found := by
      rw [nearest, List.find?_append, hfind, Option.some_or]
    rw [hnearest] at hparent
    have := hextra found (List.mem_of_find?_eq_some hfind)
    have := Option.some.inj hparent
    omega

end BeginsArm

end AtlasDb.Dialects
