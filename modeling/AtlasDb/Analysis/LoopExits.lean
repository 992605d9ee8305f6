import AtlasDb.Analysis.Flows
import AtlasDb.Analysis.HandlerFlow
import Mathlib.Data.List.Nodup

/-!
# Ways out of a loop

Which nodes of a loop the graph leads from to a node outside, read off the tree. Inside the loop a
jump is followed to the construct its label denotes; only what is nested in the loop and the loop
itself are looked at, for a jump to anything further out leaves the loop in any case
(`mem_exits_iff`).
-/

namespace AtlasDb.Analysis

open Core Parsing

/-! ## Loops -/

structure LoopSite where
  id : NodeRef
  region : LoopRegion
  body : List Node
  rest : List Node
  around : List Around

mutual

def nodeLoopSites : Node → List Node → List Around → List LoopSite
  | .simple _ _, _, _ => []
  | .compound _ label _ body, rest, p =>
    loopSites body (.block label (scopeHandlersOf body) rest :: p)
  | .ifRegion _ arms, rest, p => armLoopSites arms rest p
  | .loop id region body, rest, p =>
    ⟨id, region, body, rest, p⟩ :: loopSites body (.loop id region rest :: p)
  | .handler id region body, _, p => loopSites body (.handler ⟨id, region, body⟩ :: p)

/-- The loops of a sequence, inside handlers too, each before those in it. -/
def loopSites : List Node → List Around → List LoopSite
  | [], _ => []
  | n :: ns, p => nodeLoopSites n ns p ++ loopSites ns p

def armLoopSites : List Arm → List Node → List Around → List LoopSite
  | [], _, _ => []
  | .mk _ body :: arms, rest, p => loopSites body (.arm rest :: p) ++ armLoopSites arms rest p

end

namespace LoopSite

variable (l : LoopSite)

def node : Node := .loop l.id l.region l.body

/-- The references of the loop and of what is in it. -/
def refs : List NodeRef := l.node.refs

end LoopSite

/-- The node of the tree a node of the graph belongs to. -/
def CfgRef.owner : CfgRef → Option NodeRef
  | .ast r => some r
  | .handlerExit h => some h
  | _ => none

/-- A node of the graph that belongs to the loop. -/
def LoopSite.Inside (l : LoopSite) (r : CfgRef) : Prop := ∃ ref ∈ r.owner, ref ∈ l.refs

variable {l : LoopSite}

theorem LoopSite.inside_ast {r : NodeRef} : l.Inside (.ast r) ↔ r ∈ l.refs := by
  simp [Inside, CfgRef.owner]

/-! ## Ways out -/

/-- A construct a jump may name. `endOut` says that what follows the construct is outside the
loop. -/
structure Construct where
  label : Option String
  isLoop : Bool
  endOut : Bool
deriving DecidableEq

def Construct.accepts (label : Option String) (iterate : Bool) (c : Construct) : Bool :=
  (label.isNone || c.label = label) && (!iterate || c.isLoop)

/-- A jump goes out when it names a construct that ends outside or no construct in the loop. -/
def jumpsOut (label : Option String) (iterate : Bool) (nested : List Construct) : Bool :=
  match nested.find? (Construct.accepts label iterate) with
  | some c => !iterate && c.endOut
  | none => true

/-- The edge of a simple statement goes out; `endOut` is said of what follows the statement. -/
def statementOut (stmt : Statement) (endOut : Bool) (nested : List Construct) : Bool :=
  match stmt.kind with
  | .return | .resignal | .signal => true
  | .leave => jumpsOut (jumpLabel stmt.text) false nested
  | .iterate => jumpsOut (jumpLabel stmt.text) true nested
  | _ => endOut

mutual

def nodeExits (endOut : Bool) (nested : List Construct) : Node → List NodeRef
  | .simple id stmt =>
    if !(Node.simple id stmt).isDeclaration && statementOut stmt endOut nested then [id] else []
  | .compound id label _ body =>
    seqExits endOut (⟨contextLabel label, false, endOut⟩ :: nested) body ++
      if body.all Node.isDeclaration && endOut then [id] else []
  | .ifRegion id arms => armExits id false false endOut nested arms
  | .loop id region body =>
    seqExits false (⟨contextLabel region.label, true, endOut⟩ :: nested) body ++
      if region.loopKind ≠ .loop && endOut then [id] else []
  | .handler _ _ _ => []

/-- The nodes of a sequence with an edge out of the loop. `endOut` is said of what follows the
sequence, `nested` are the constructs around it up to the loop, innermost first. -/
def seqExits (endOut : Bool) (nested : List Construct) : List Node → List NodeRef
  | [] => []
  | n :: ns =>
    seqExits endOut nested ns ++ nodeExits (ns.all Node.isDeclaration && endOut) nested n

def armExits (id : NodeRef) (hasElse always endOut : Bool) (nested : List Construct) :
    List Arm → List NodeRef
  | [] => if !hasElse && !always && endOut then [id] else []
  | .mk arm body :: arms =>
    seqExits endOut nested body ++
      ((if body.all Node.isDeclaration && endOut then [arm.armId] else []) ++
       armExits id (hasElse || arm.armKind = .else) (always || armTruth arm = some true) endOut
        nested arms)

end

/-- The end of an `EXIT` or `UNDO` handler is the end of the routine. -/
def handlerEndOut (h : Handler) : Bool := h.region.handlerKind ≠ .continue

/-- The nodes of a handler in the loop with an edge out of the loop. A jump in it sees only the
constructs of its body. -/
def handlerExits (h : Handler) : List NodeRef :=
  seqExits (handlerEndOut h) [] h.body ++
    if h.body.all Node.isDeclaration && handlerEndOut h then [h.id] else []

namespace LoopSite

variable (l : LoopSite)

/-- The nodes of the loop with an edge out of it that is no handler edge. -/
def exits : List NodeRef :=
  nodeExits true [] l.node ++ (handlersOf l.body).flatMap handlerExits

end LoopSite

/-! ## The exits are the edges out -/

variable {e : CfgEdge} {x : NodeRef}

section Out

variable {P : CfgRef → Prop}

/-- What the tree says of a construct is so of the context the builder has for it. -/
structure Construct.Describes (P : CfgRef → Prop) (k : Construct) (c : ControlContext) : Prop where
  label : c.label = k.label
  isLoop : c.loopHeader.isSome = k.isLoop
  end_out : ¬ P c.exitRef ↔ k.endOut = true
  header : ∀ r ∈ c.loopHeader, P r

/-- The stack has the nested constructs on top, and what is below them leads out. -/
structure Tracks (P : CfgRef → Prop) (nested : List Construct) (stack : List ControlContext) :
    Prop where
  normal : ¬ P .normalExit
  exceptional : ¬ P .exceptionalExit
  split : ∃ top outer, stack = top ++ outer ∧ List.Forall₂ (Construct.Describes P) nested top ∧
    ∀ c ∈ outer, ¬ P c.exitRef ∧ ∀ r ∈ c.loopHeader, ¬ P r

theorem Construct.Describes.accepts {k : Construct} {c : ControlContext} (h : k.Describes P c)
    (label : Option String) (iterate : Bool) :
    c.accepts label iterate = k.accepts label iterate := by
  rw [ControlContext.accepts, Construct.accepts, h.label, h.isLoop]

variable {nested : List Construct} {stack : List ControlContext}

theorem Tracks.cons {k : Construct}
    {c : ControlContext} (h : Tracks P nested stack) (hk : k.Describes P c) :
    Tracks P (k :: nested) (c :: stack) where
  normal := h.normal
  exceptional := h.exceptional
  split := by
    obtain ⟨top, outer, rfl, htop, houter⟩ := h.split
    exact ⟨c :: top, outer, rfl, .cons hk htop, houter⟩

theorem find_describes {top : List ControlContext}
    (h : List.Forall₂ (Construct.Describes P) nested top) (label : Option String) (iterate : Bool) :
    (nested.find? (Construct.accepts label iterate) = none ∧
      top.find? (ControlContext.accepts label iterate) = none) ∨
    ∃ k c, nested.find? (Construct.accepts label iterate) = some k ∧
      top.find? (ControlContext.accepts label iterate) = some c ∧ k.Describes P c := by
  induction h with
  | nil => exact .inl ⟨rfl, rfl⟩
  | @cons k c nested top hk _ ih =>
    rw [List.find?_cons, List.find?_cons, hk.accepts]
    cases k.accepts label iterate with
    | true => exact .inr ⟨k, c, rfl, rfl, hk⟩
    | false => exact ih

/-- A jump leaves the place iff it passes all constructs inside. -/
theorem resolveControlTarget_out
    (h : Tracks P nested stack) (label : Option String) (iterate : Bool) :
    ¬ P (resolveControlTarget label iterate stack) ↔ jumpsOut label iterate nested = true := by
  obtain ⟨top, outer, rfl, htop, houter⟩ := h.split
  rw [resolveControlTarget, jumpsOut, List.find?_append]
  rcases find_describes htop label iterate with ⟨hnested, hnone⟩ | ⟨k, c, hnested, hsome, hk⟩
  · rw [hnested, hnone, Option.none_or]
    refine iff_of_true ?_ rfl
    cases hfind : outer.find? (ControlContext.accepts label iterate) with
    | none =>
      dsimp only
      split
      · exact h.normal
      · exact h.exceptional
    | some c =>
      obtain ⟨hexit, hheader⟩ := houter c (List.mem_of_find?_eq_some hfind)
      dsimp only
      split
      · cases hloop : c.loopHeader with
        | none => exact hexit
        | some r => exact hheader r hloop
      · exact hexit
  · have haccepts := List.find?_some hsome
    rw [hnested, hsome, Option.some_or]
    dsimp only
    cases iterate with
    | false => exact hk.end_out
    | true =>
      -- an accepted ITERATE has a loop, and its header is inside
      simp only [ControlContext.accepts, Bool.not_true, Bool.false_or, Bool.and_eq_true,
        Option.isSome_iff_exists] at haccepts
      obtain ⟨-, r, hr⟩ := haccepts
      simpa [hr] using hk.header r hr

theorem statementEdge_out {id : NodeRef} {stmt : Statement} {continuation : CfgRef} {endOut : Bool}
    (h : Tracks P nested stack)
    (hend : ¬ P continuation ↔ endOut = true) :
    ¬ P (statementEdge id stmt continuation stack).target ↔
      statementOut stmt endOut nested = true := by
  unfold statementEdge statementOut
  cases stmt.kind with
  | «return» => exact iff_of_true h.normal rfl
  | resignal => exact iff_of_true h.exceptional rfl
  | signal => exact iff_of_true h.exceptional rfl
  | leave => exact resolveControlTarget_out h _ _
  | iterate => exact resolveControlTarget_out h _ _
  | _ => exact hend

theorem seqEntry_out {code : List Node} {continuation : CfgRef} {endOut : Bool}
    (hrefs : ∀ r ∈ flowRefs code, P (.ast r)) (hend : ¬ P continuation ↔ endOut = true) :
    ¬ P (seqEntry code continuation) ↔ (code.all Node.isDeclaration && endOut) = true := by
  induction code with
  | nil => simpa [seqEntry] using hend
  | cons n ns ih =>
    obtain ⟨hn, hns⟩ := List.forall_mem_append.mp hrefs
    rw [seqEntry, nodeEntry, List.all_cons]
    cases hdecl : n.isDeclaration with
    | true => simpa using ih hns
    | false => simpa using hn _ (id_mem_nodeFlowRefs hdecl)

/-- One of the edges leads from the node `x` to where `P` fails. -/
def GoesOut (P : CfgRef → Prop) (edges : List CfgEdge) (x : NodeRef) : Prop :=
  ∃ e ∈ edges, e.source = .ast x ∧ ¬ P e.target

theorem goesOut_nil : GoesOut P [] x ↔ x ∈ ([] : List NodeRef) := by
  simp [GoesOut]

theorem goesOut_append {edges edges' : List CfgEdge} {exits exits' : List NodeRef}
    (h : GoesOut P edges x ↔ x ∈ exits) (h' : GoesOut P edges' x ↔ x ∈ exits') :
    GoesOut P (edges ++ edges') x ↔ x ∈ exits ++ exits' := by
  rw [List.mem_append, ← h, ← h']
  simp only [GoesOut, List.mem_append, or_and_right, exists_or]

theorem goesOut_singleton {id x : NodeRef} {out : Bool} (hsource : e.source = .ast id)
    (h : ¬ P e.target ↔ out = true) : GoesOut P [e] x ↔ x ∈ if out then [id] else [] := by
  cases out with
  | false => simpa [GoesOut] using fun _ => not_not.mp fun hp => Bool.false_ne_true (h.mp hp)
  | true => simpa [GoesOut, hsource, h.mpr rfl] using eq_comm

theorem goesOut_inside (h : P e.target) :
    GoesOut P [e] x ↔ x ∈ ([] : List NodeRef) := by
  simp [GoesOut, h]

theorem goesOut_none {out : Bool} {id x : NodeRef} (h : out = false) :
    GoesOut P [] x ↔ x ∈ if out then [id] else [] := by
  simp [GoesOut, h]

theorem describes_block {label : Option String} {exit : CfgRef} {endOut : Bool}
    (hend : ¬ P exit ↔ endOut = true) :
    (Construct.mk (contextLabel label) false endOut).Describes P (blockContext label exit) where
  label := rfl
  isLoop := rfl
  end_out := hend
  header := nofun

theorem describes_loop {id : NodeRef} {region : LoopRegion} {exit : CfgRef} {endOut : Bool}
    (hid : P (.ast id)) (hend : ¬ P exit ↔ endOut = true) :
    (Construct.mk (contextLabel region.label) true endOut).Describes P
    (loopContext id region exit) where
  label := rfl
  isLoop := rfl
  end_out := hend
  header := by
    rintro _ ⟨⟩
    exact hid

mutual

/-- The edges out of a place are those of its exits. -/
theorem nodeEdges_out (n : Node) {continuation : CfgRef} {endOut : Bool} {nested : List Construct}
    {stack : List ControlContext} (hrefs : ∀ r ∈ nodeFlowRefs n, P (.ast r))
    (hend : ¬ P continuation ↔ endOut = true) (h : Tracks P nested stack) :
    GoesOut P (nodeEdges n continuation stack) x ↔ x ∈ nodeExits endOut nested n := by
  cases n with
  | simple id stmt =>
    simp only [nodeEdges, nodeExits]
    cases hdecl : (Node.simple id stmt).isDeclaration with
    | true => exact goesOut_none rfl
    | false => exact goesOut_singleton (statementEdge_source ..) (statementEdge_out h hend)
  | compound id label text body =>
    obtain ⟨-, hbody⟩ := List.forall_mem_cons.mp hrefs
    exact goesOut_append (seqEdges_out body hbody hend (h.cons (describes_block hend)))
      (goesOut_singleton rfl (seqEntry_out hbody hend))
  | ifRegion id arms =>
    obtain ⟨-, harms⟩ := List.forall_mem_cons.mp hrefs
    exact armEdges_out id 0 false false arms harms (hrefs id List.mem_cons_self) hend h
  | loop id region body =>
    obtain ⟨hid, hbody⟩ := List.forall_mem_cons.mp hrefs
    have hheader : ¬ P (.ast id) ↔ false = true := by simpa using hid
    have hentry : P (seqEntry body (.ast id)) := by
      have hentry := seqEntry_out hbody hheader
      rw [Bool.and_false] at hentry
      simpa using hentry
    -- only the other kinds of loop have an edge to what follows
    have hexit : GoesOut P (if region.loopKind = .loop then []
        else [{ source := .ast id, target := continuation, kind := .loopExit,
                conditionText := negatedCondition region.conditionText }]) x ↔
        x ∈ if region.loopKind ≠ .loop && endOut then [id] else [] := by
      by_cases hkind : region.loopKind = .loop
      · rw [if_pos hkind]
        exact goesOut_none (by simp [hkind])
      · rw [if_neg hkind]
        exact goesOut_singleton rfl (by simpa [hkind] using hend)
    exact goesOut_append (seqEdges_out body hbody hheader (h.cons (describes_loop hid hend)))
      (goesOut_append (goesOut_inside hentry) hexit)
  | handler => exact goesOut_nil

theorem seqEdges_out (code : List Node) {continuation : CfgRef} {endOut : Bool}
    {nested : List Construct} {stack : List ControlContext}
    (hrefs : ∀ r ∈ flowRefs code, P (.ast r)) (hend : ¬ P continuation ↔ endOut = true)
    (h : Tracks P nested stack) :
    GoesOut P (seqEdges code continuation stack) x ↔ x ∈ seqExits endOut nested code := by
  cases code with
  | nil => exact goesOut_nil
  | cons n ns =>
    obtain ⟨hn, hns⟩ := List.forall_mem_append.mp hrefs
    exact goesOut_append (seqEdges_out ns hns hend h) (nodeEdges_out n hn (seqEntry_out hns hend) h)

theorem armEdges_out (id : NodeRef) (index : Nat) (hasElse always : Bool) (arms : List Arm)
    {continuation : CfgRef} {endOut : Bool} {nested : List Construct} {stack : List ControlContext}
    (hrefs : ∀ r ∈ armFlowRefs arms, P (.ast r)) (hid : P (.ast id))
    (hend : ¬ P continuation ↔ endOut = true) (h : Tracks P nested stack) :
    GoesOut P (armEdges id index hasElse always arms continuation stack) x ↔
      x ∈ armExits id hasElse always endOut nested arms := by
  cases arms with
  | nil =>
    simp only [armEdges, armExits]
    cases hopen : !hasElse && !always with
    | false => exact goesOut_none rfl
    | true => exact goesOut_singleton rfl (by simpa using hend)
  | cons a arms =>
    obtain ⟨header, body⟩ := a
    obtain ⟨hheader, hrefs⟩ := List.forall_mem_cons.mp hrefs
    obtain ⟨hbody, harms⟩ := List.forall_mem_append.mp hrefs
    apply goesOut_append (seqEdges_out body hbody hend h)
    show GoesOut P ([_] ++ (_ ++ _)) x ↔ x ∈ _ ++ ([] ++ _)
    apply goesOut_append (goesOut_singleton rfl (seqEntry_out hbody hend))
    apply goesOut_append _ (armEdges_out id _ _ _ arms harms hid hend h)
    -- the edge from the region to an arm stays inside
    split
    · exact goesOut_nil
    · exact goesOut_inside hheader

end

theorem handlerEdges_out (h : Handler) (hrefs : ∀ r ∈ flowRefs h.body, P (.ast r))
    (hend : ¬ P (handlerFallthrough h) ↔ handlerEndOut h = true) (hnone : Tracks P [] []) :
    GoesOut P (handlerEdges h) x ↔ x ∈ handlerExits h := by
  have hentry := seqEntry_out hrefs hend
  apply goesOut_append (seqEdges_out h.body hrefs hend hnone)
  split
  · next heq =>
      -- the body is empty and the edge to what follows is there twice
      rw [heq] at hentry
      show GoesOut P ([_] ++ [_]) x ↔ _
      have htwice := goesOut_append (goesOut_singleton (x := x)
        (e := { source := .ast h.id, target := seqEntry h.body (handlerFallthrough h),
                kind := .handlerBody }) rfl (heq ▸ hentry)) (goesOut_singleton (x := x)
        (e := { source := .ast h.id, target := handlerFallthrough h,
                kind := .handlerFallthrough }) rfl hentry)
      rw [htwice, List.mem_append, or_self]
  · exact goesOut_singleton rfl hentry

end Out

/-! ## The loop in its procedure -/

/-- The node of the graph belongs to none of the references. -/
def Apart (refs : List NodeRef) (r : CfgRef) : Prop := ∀ ref ∈ r.owner, ref ∉ refs

variable {refs : List NodeRef} {stack : List ControlContext}

theorem apart_ast {r : NodeRef} : Apart refs (.ast r) ↔ r ∉ refs := by
  simp [Apart, CfgRef.owner]

theorem LoopSite.not_inside_iff {r : CfgRef} : ¬ l.Inside r ↔ Apart l.refs r := by
  simp [Inside, Apart]

variable {refs refs' : List NodeRef}

theorem Apart.mono {r : CfgRef} (h : Apart refs r)
    (hsub : ∀ ref ∈ refs', ref ∈ refs) : Apart refs' r :=
  fun ref href hmem => h ref href (hsub ref hmem)

/-- What a jump finds on the stack belongs to none of the references. -/
def StackApart (refs : List NodeRef) (stack : List ControlContext) : Prop :=
  ∀ c ∈ stack, Apart refs c.exitRef ∧ ∀ r ∈ c.loopHeader, Apart refs r

theorem StackApart.mono
    (h : StackApart refs stack) (hsub : ∀ ref ∈ refs', ref ∈ refs) : StackApart refs' stack :=
  fun c hc => ⟨(h c hc).1.mono hsub, fun r hr => ((h c hc).2 r hr).mono hsub⟩

theorem stackApart_block {label : Option String}
    {exit : CfgRef} (h : StackApart refs stack) (hexit : Apart refs exit) :
    StackApart refs (blockContext label exit :: stack) :=
  List.forall_mem_cons.mpr ⟨⟨hexit, nofun⟩, h⟩

theorem stackApart_loop {id : NodeRef}
    {region : LoopRegion} {exit : CfgRef} (h : StackApart refs stack) (hid : id ∉ refs)
    (hexit : Apart refs exit) : StackApart refs (loopContext id region exit :: stack) := by
  refine List.forall_mem_cons.mpr ⟨⟨hexit, ?_⟩, h⟩
  rintro _ ⟨⟩
  exact apart_ast.mpr hid

theorem id_mem_refs (n : Node) : n.id ∈ n.refs := by
  cases n <;> exact List.mem_cons_self

theorem mem_refsOf_of_mem {code : List Node} {n : Node} (hn : n ∈ code) {ref : NodeRef}
    (href : ref ∈ n.refs) : ref ∈ refsOf code := by
  induction code with
  | nil => cases hn
  | cons m ns ih =>
    rcases List.mem_cons.mp hn with rfl | hn
    · exact List.mem_append_left _ href
    · exact List.mem_append_right _ (ih hn)

theorem seqEntry_apart {code : List Node} {continuation : CfgRef}
    (hcode : ∀ ref ∈ refsOf code, ref ∉ refs) (hcont : Apart refs continuation) :
    Apart refs (seqEntry code continuation) :=
  seqEntry_satisfies
    (fun n hn _ => apart_ast.mpr (hcode _ (mem_refsOf_of_mem hn (id_mem_refs n)))) hcont

/-- What follows the loop and what its jumps find further out are outside it. -/
structure LoopSite.Surrounded (l : LoopSite) : Prop where
  follows : Apart l.refs (seqEntry l.rest (endRef l.around))
  outer : StackApart l.refs (controlStack l.around)

mutual

theorem nodeLoopSites_surrounded {n : Node} {rest : List Node} {p : List Around}
    (hl : l ∈ nodeLoopSites n rest p) (hdistinct : n.refs.Nodup)
    (hrest : Apart n.refs (seqEntry rest (endRef p))) (hp : StackApart n.refs (controlStack p)) :
    l.Surrounded := by
  cases n with
  | simple => cases hl
  | compound id label text body =>
    obtain ⟨-, hbody⟩ := List.nodup_cons.mp hdistinct
    have hsub : ∀ ref ∈ refsOf body, ref ∈ id :: refsOf body := fun _ => List.mem_cons_of_mem _
    exact loopSites_surrounded hl hbody (hrest.mono hsub)
      (stackApart_block (hp.mono hsub) (hrest.mono hsub))
  | ifRegion id arms =>
    obtain ⟨-, harms⟩ := List.nodup_cons.mp hdistinct
    have hsub : ∀ ref ∈ refsOfArms arms, ref ∈ id :: refsOfArms arms := fun _ =>
      List.mem_cons_of_mem _
    exact armLoopSites_surrounded hl harms (hrest.mono hsub) (hp.mono hsub)
  | loop id region body =>
    rcases List.mem_cons.mp hl with rfl | hl
    · exact ⟨hrest, hp⟩
    obtain ⟨hid, hbody⟩ := List.nodup_cons.mp hdistinct
    have hsub : ∀ ref ∈ refsOf body, ref ∈ id :: refsOf body := fun _ => List.mem_cons_of_mem _
    exact loopSites_surrounded hl hbody (apart_ast.mpr hid)
      (stackApart_loop (hp.mono hsub) hid (hrest.mono hsub))
  | handler id region body =>
    obtain ⟨hid, hbody⟩ := List.nodup_cons.mp hdistinct
    refine loopSites_surrounded hl hbody ?_ (fun _ hc => absurd hc List.not_mem_nil)
    show Apart _ (handlerFallthrough _)
    unfold handlerFallthrough
    split
    · simpa [Apart, CfgRef.owner] using hid
    · simp [Apart, CfgRef.owner]

theorem loopSites_surrounded {code : List Node} {p : List Around}
    (hl : l ∈ loopSites code p) (hdistinct : (refsOf code).Nodup)
    (hend : Apart (refsOf code) (endRef p)) (hp : StackApart (refsOf code) (controlStack p)) :
    l.Surrounded := by
  cases code with
  | nil => cases hl
  | cons n ns =>
    obtain ⟨hn, hns, hdisjoint⟩ := List.nodup_append'.mp hdistinct
    have hleft : ∀ ref ∈ n.refs, ref ∈ refsOf (n :: ns) := fun _ => List.mem_append_left _
    have hright : ∀ ref ∈ refsOf ns, ref ∈ refsOf (n :: ns) := fun _ => List.mem_append_right _
    rcases List.mem_append.mp hl with hl | hl
    · exact nodeLoopSites_surrounded hl hn
        (seqEntry_apart (fun ref href hmem => hdisjoint hmem href) (hend.mono hleft))
        (hp.mono hleft)
    · exact loopSites_surrounded hl hns (hend.mono hright) (hp.mono hright)

theorem armLoopSites_surrounded {arms : List Arm} {rest : List Node} {p : List Around}
    (hl : l ∈ armLoopSites arms rest p) (hdistinct : (refsOfArms arms).Nodup)
    (hrest : Apart (refsOfArms arms) (seqEntry rest (endRef p)))
    (hp : StackApart (refsOfArms arms) (controlStack p)) : l.Surrounded := by
  cases arms with
  | nil => cases hl
  | cons a arms =>
    obtain ⟨header, body⟩ := a
    obtain ⟨-, hdistinct⟩ := List.nodup_cons.mp hdistinct
    obtain ⟨hbody, harms, -⟩ := List.nodup_append'.mp hdistinct
    have hleft : ∀ ref ∈ refsOf body, ref ∈ refsOfArms (.mk header body :: arms) := fun _ href =>
      List.mem_cons_of_mem _ (List.mem_append_left _ href)
    have hright : ∀ ref ∈ refsOfArms arms, ref ∈ refsOfArms (.mk header body :: arms) :=
      fun _ href =>
      List.mem_cons_of_mem _ (List.mem_append_right _ href)
    rcases List.mem_append.mp hl with hl | hl
    · exact loopSites_surrounded hl hbody (hrest.mono hleft) (hp.mono hleft)
    · exact armLoopSites_surrounded hl harms (hrest.mono hright) (hp.mono hright)

end

mutual

theorem nodeLoopSites_refs {n : Node} {rest : List Node} {p : List Around}
    (hl : l ∈ nodeLoopSites n rest p) : ∀ ref ∈ l.refs, ref ∈ n.refs := by
  cases n with
  | simple => cases hl
  | compound id label text body =>
    exact fun ref href => List.mem_cons_of_mem _ (loopSites_refs hl ref href)
  | ifRegion id arms => exact fun ref href => List.mem_cons_of_mem _ (armLoopSites_refs hl ref href)
  | loop id region body =>
    rcases List.mem_cons.mp hl with rfl | hl
    · exact fun _ href => href
    · exact fun ref href => List.mem_cons_of_mem _ (loopSites_refs hl ref href)
  | handler id region body =>
    exact fun ref href => List.mem_cons_of_mem _ (loopSites_refs hl ref href)

theorem loopSites_refs {code : List Node} {p : List Around}
    (hl : l ∈ loopSites code p) : ∀ ref ∈ l.refs, ref ∈ refsOf code := by
  cases code with
  | nil => cases hl
  | cons n ns =>
    intro ref href
    rcases List.mem_append.mp hl with hl | hl
    · exact List.mem_append_left _ (nodeLoopSites_refs hl ref href)
    · exact List.mem_append_right _ (loopSites_refs hl ref href)

theorem armLoopSites_refs {arms : List Arm} {rest : List Node} {p : List Around}
    (hl : l ∈ armLoopSites arms rest p) : ∀ ref ∈ l.refs, ref ∈ refsOfArms arms := by
  cases arms with
  | nil => cases hl
  | cons a arms =>
    obtain ⟨header, body⟩ := a
    intro ref href
    rcases List.mem_append.mp hl with hl | hl
    · exact List.mem_cons_of_mem _ (List.mem_append_left _ (loopSites_refs hl ref href))
    · exact List.mem_cons_of_mem _ (List.mem_append_right _ (armLoopSites_refs hl ref href))

end

/-- The edge leaves one of the references. -/
def SourceIn (refs : List NodeRef) (e : CfgEdge) : Prop := ∃ ref ∈ refs, e.source = .ast ref

theorem SourceIn.not_of_disjoint (h : SourceIn refs e)
    (hdisjoint : refs.Disjoint refs') : ¬ SourceIn refs' e := by
  rintro ⟨ref', href', hsource'⟩
  obtain ⟨ref, href, hsource⟩ := h
  obtain rfl : ref = ref' := by simpa [hsource] using hsource'
  exact hdisjoint href href'

theorem SourceIn.mono (h : SourceIn refs e) (hsub : ∀ ref ∈ refs, ref ∈ refs') : SourceIn refs' e :=
  h.imp fun _ hmem => hmem.imp_left (hsub _)

theorem SourceIn.ne_of_notMem {refs : List NodeRef} {id : NodeRef} (h : SourceIn refs e)
    (hid : id ∉ refs) : e.source ≠ .ast id := by
  obtain ⟨ref, href, hsource⟩ := h
  rw [hsource]
  rintro ⟨⟩
  exact hid href

mutual

/-- References are distinct, so what is added with an edge from a node of the loop is added for the
loop. -/
theorem nodeLoopSites_only {n : Node} {rest : List Node} {p : List Around}
    (hl : l ∈ nodeLoopSites n rest p) (hdistinct : n.refs.Nodup)
    (hsource : SourceIn l.refs e) (h : NodeAdds n rest p e) :
    NodeAdds l.node l.rest l.around e := by
  cases n with
  | simple => cases hl
  | compound id label text body =>
    obtain ⟨hid, hbody⟩ := List.nodup_cons.mp hdistinct
    rcases nodeAdds_compound.mp h with rfl | h
    · exact absurd rfl ((hsource.mono (loopSites_refs hl)).ne_of_notMem hid)
    · exact loopSites_only hl hbody hsource h
  | ifRegion id arms =>
    obtain ⟨hid, harms⟩ := List.nodup_cons.mp hdistinct
    exact armLoopSites_only hid hl harms hsource (nodeAdds_ifRegion h)
  | loop id region body =>
    rcases List.mem_cons.mp hl with rfl | hl
    · exact h
    obtain ⟨hid, hbody⟩ := List.nodup_cons.mp hdistinct
    rcases nodeAdds_loop h with h | h
    · exact absurd h ((hsource.mono (loopSites_refs hl)).ne_of_notMem hid)
    · exact loopSites_only hl hbody hsource h
  | handler id region body =>
    obtain ⟨hid, hbody⟩ := List.nodup_cons.mp hdistinct
    rcases nodeAdds_handler h with h | h
    · exact absurd h ((hsource.mono (loopSites_refs hl)).ne_of_notMem hid)
    · exact loopSites_only hl hbody hsource h

theorem loopSites_only {code : List Node} {p : List Around}
    (hl : l ∈ loopSites code p) (hdistinct : (refsOf code).Nodup) (hsource : SourceIn l.refs e)
    (h : Adds code p e) : NodeAdds l.node l.rest l.around e := by
  cases code with
  | nil => cases hl
  | cons n ns =>
    obtain ⟨hn, hns, hdisjoint⟩ := List.nodup_append'.mp hdistinct
    rcases List.mem_append.mp hl with hl | hl <;> rcases adds_cons.mp h with h | h
    · exact nodeLoopSites_only hl hn hsource h
    · exact absurd (adds_source h)
        ((hsource.mono (nodeLoopSites_refs hl)).not_of_disjoint hdisjoint)
    · have hhead : SourceIn n.refs e := nodeAdds_source h
      exact absurd (hsource.mono (loopSites_refs hl)) (hhead.not_of_disjoint hdisjoint)
    · exact loopSites_only hl hns hsource h

theorem armLoopSites_only {id : NodeRef} {arms : List Arm} {rest : List Node} {p : List Around}
    (hid : id ∉ refsOfArms arms) (hl : l ∈ armLoopSites arms rest p)
    (hdistinct : (refsOfArms arms).Nodup) (hsource : SourceIn l.refs e)
    (h : ArmsAdd id arms rest p e) :
    NodeAdds l.node l.rest l.around e := by
  have hin := hsource.mono (armLoopSites_refs hl)
  cases arms with
  | nil => cases hl
  | cons a arms =>
    obtain ⟨header, body⟩ := a
    obtain ⟨hheader, happend⟩ := List.nodup_cons.mp hdistinct
    obtain ⟨hbody, harms, hdisjoint⟩ := List.nodup_append'.mp happend
    have hid' : id ∉ refsOfArms arms := fun hmem =>
      hid (List.mem_cons_of_mem _ (List.mem_append_right _ hmem))
    rcases armsAdd_cons h with h | h | h | h
    · exact absurd h (hin.ne_of_notMem hid)
    · -- The arm itself is in none of the loops of its body or of the other arms.
      have happ : SourceIn (refsOf body ++ refsOfArms arms) e := by
        rcases List.mem_append.mp hl with hl | hl
        · exact (hsource.mono (loopSites_refs hl)).mono fun _ => List.mem_append_left _
        · exact (hsource.mono (armLoopSites_refs hl)).mono fun _ => List.mem_append_right _
      exact absurd h (happ.ne_of_notMem hheader)
    · rcases List.mem_append.mp hl with hl | hl
      · exact loopSites_only hl hbody hsource h
      · have hfirst : SourceIn (refsOf body) e := adds_source h
        exact absurd (hsource.mono (armLoopSites_refs hl)) (hfirst.not_of_disjoint hdisjoint)
    · rcases List.mem_append.mp hl with hl | hl
      · obtain ⟨ref, href, heq⟩ := armsAdd_source h
        have hbodyrefs := hsource.mono (loopSites_refs hl)
        rcases List.mem_cons.mp href with rfl | href
        · exact absurd heq (hin.ne_of_notMem hid)
        · exact absurd ⟨ref, href, heq⟩ (hbodyrefs.not_of_disjoint hdisjoint)
      · exact armLoopSites_only hid' hl harms hsource h

end

mutual

theorem nodeLoopSites_adds {n : Node} {rest : List Node} {p : List Around}
    (hl : l ∈ nodeLoopSites n rest p) (h : NodeAdds l.node l.rest l.around e) :
    NodeAdds n rest p e := by
  cases n with
  | simple => cases hl
  | compound id label text body => exact nodeAdds_compound.mpr (.inr (loopSites_adds hl h))
  | ifRegion id arms => exact armLoopSites_adds id 0 false false hl h
  | loop id region body =>
    rcases List.mem_cons.mp hl with rfl | hl
    · exact h
    · exact nodeAdds_loop_body (loopSites_adds hl h)
  | handler id region body => exact nodeAdds_handler_body (loopSites_adds hl h)

theorem loopSites_adds {code : List Node} {p : List Around}
    (hl : l ∈ loopSites code p) (h : NodeAdds l.node l.rest l.around e) : Adds code p e := by
  cases code with
  | nil => cases hl
  | cons n ns =>
    rcases List.mem_append.mp hl with hl | hl
    · exact adds_cons.mpr (.inl (nodeLoopSites_adds hl h))
    · exact adds_cons.mpr (.inr (loopSites_adds hl h))

theorem armLoopSites_adds (region : NodeRef) (index : Nat) (hasElse always : Bool) {arms : List Arm}
    {rest : List Node} {p : List Around}
    (hl : l ∈ armLoopSites arms rest p) (h : NodeAdds l.node l.rest l.around e) :
    e ∈ armEdges region index hasElse always arms (seqEntry rest (endRef p)) (controlStack p) ∨
      ∃ hd ∈ handlersOfArms arms, e ∈ handlerEdges hd := by
  cases arms with
  | nil => cases hl
  | cons a arms =>
    obtain ⟨header, body⟩ := a
    simp only [armEdges, handlersOfArms, List.mem_append, List.mem_cons]
    rcases List.mem_append.mp hl with hl | hl
    · rcases loopSites_adds hl h with h | ⟨hd, hmem, h⟩
      · exact .inl (.inl h)
      · exact .inr ⟨hd, .inl hmem, h⟩
    · rcases armLoopSites_adds region (index + 1) (hasElse || header.armKind = .else)
        (always || armTruth header = some true) hl h with h | ⟨hd, hmem, h⟩
      · exact .inl (.inr (.inr (.inr h)))
      · exact .inr ⟨hd, .inr hmem, h⟩

end

/-! ## The edges out of a loop -/

section Procedure

variable {ast : ProcedureAst} {l : LoopSite}

theorem procedure_surrounded (hl : l ∈ loopSites ast.body []) : l.Surrounded :=
  loopSites_surrounded hl ast.distinct nofun fun _ hc => absurd hc List.not_mem_nil

theorem LoopSite.not_inside_normal : ¬ l.Inside .normalExit := by
  simp [Inside, CfgRef.owner]

theorem LoopSite.not_inside_exceptional : ¬ l.Inside .exceptionalExit := by
  simp [Inside, CfgRef.owner]

theorem handlerFallthrough_out {h : Handler} (hid : h.id ∈ l.refs) :
    ¬ l.Inside (handlerFallthrough h) ↔ handlerEndOut h = true := by
  unfold handlerFallthrough handlerEndOut
  by_cases hkind : h.region.handlerKind = .continue
  · rw [if_pos hkind]
    simpa [hkind, LoopSite.Inside, CfgRef.owner] using hid
  · rw [if_neg hkind]
    simpa [hkind] using LoopSite.not_inside_normal

/-- An exit is the source of an edge of the loop that ends outside. -/
theorem mem_exits_iff (hl : l ∈ loopSites ast.body []) :
    x ∈ l.exits ↔
      ∃ e, NodeAdds l.node l.rest l.around e ∧ e.source = .ast x ∧ ¬ l.Inside e.target := by
  obtain ⟨hfollows, houter⟩ := procedure_surrounded hl
  have hbody : ∀ ref ∈ refsOf l.body, ref ∈ l.refs := fun _ => List.mem_cons_of_mem _
  have hown : GoesOut l.Inside (nodeEdges l.node (seqEntry l.rest (endRef l.around))
      (controlStack l.around)) x ↔ x ∈ nodeExits true [] l.node := by
    apply nodeEdges_out
    · intro r hr
      exact LoopSite.inside_ast.mpr ((nodeRefs_perm l.node).mem_iff.mpr (List.mem_append_left _ hr))
    · exact iff_of_true (LoopSite.not_inside_iff.mpr hfollows) rfl
    · refine ⟨LoopSite.not_inside_normal, LoopSite.not_inside_exceptional, [], _, rfl, .nil, ?_⟩
      intro c hc
      obtain ⟨hexit, hheader⟩ := houter c hc
      exact ⟨LoopSite.not_inside_iff.mpr hexit, fun r hr =>
        LoopSite.not_inside_iff.mpr (hheader r hr)⟩
  have hhandler : ∀ h ∈ handlersOf l.body,
      (GoesOut l.Inside (handlerEdges h) x ↔ x ∈ handlerExits h) := by
    intro h hh
    have hrefs : ∀ ref ∈ handlerFlowRefs h, ref ∈ l.refs := fun ref href =>
      hbody ref (mem_refs_of_handler hh href)
    apply handlerEdges_out
    · exact fun r hr => LoopSite.inside_ast.mpr (hrefs r (List.mem_cons_of_mem _ hr))
    · exact handlerFallthrough_out (hrefs h.id List.mem_cons_self)
    · exact ⟨LoopSite.not_inside_normal, LoopSite.not_inside_exceptional, [], [], rfl, .nil,
        fun _ hc => absurd hc List.not_mem_nil⟩
  rw [LoopSite.exits, List.mem_append, ← hown, List.mem_flatMap]
  constructor
  · rintro (⟨e, he, hsource, hout⟩ | ⟨h, hh, hx⟩)
    · exact ⟨e, .inl he, hsource, hout⟩
    · obtain ⟨e, he, hsource, hout⟩ := (hhandler h hh).mpr hx
      exact ⟨e, .inr ⟨h, hh, he⟩, hsource, hout⟩
  · rintro ⟨e, he | ⟨h, hh, he⟩, hsource, hout⟩
    · exact .inl ⟨e, he, hsource, hout⟩
    · exact .inr ⟨h, hh, (hhandler h hh).mp ⟨e, he, hsource, hout⟩⟩

/-- A statement at the node is bound to a handler that is declared outside the loop. -/
def HandledOutside (ast : ProcedureAst) (l : LoopSite) (x : NodeRef) : Prop :=
  ∃ s h, BoundTo ast s h ∧ s.id = x ∧ h.id ∉ l.refs

/-- From a node of the loop the graph has an edge out of the loop where it is one of the exits or
has a handler outside. -/
theorem edge_out_iff (hl : l ∈ loopSites ast.body []) (hx : x ∈ l.refs) :
    (∃ t, Edge ast (.ast x) t ∧ ¬ l.Inside t) ↔ x ∈ l.exits ∨ HandledOutside ast l x := by
  rw [mem_exits_iff hl]
  constructor
  · rintro ⟨t, ⟨e, he, hsource, rfl⟩, hout⟩
    rcases mem_cfgEdges.mp he with hadds | rfl | ⟨b, hb, rfl⟩
    · exact .inl ⟨e, loopSites_only hl ast.distinct ⟨x, hx, hsource⟩ hadds, hsource, hout⟩
    · cases hsource
    · obtain ⟨s, hs, houtside, hbinding⟩ := seqBindings_site (p := []) hb rfl
      obtain ⟨h, hbound, rfl⟩ := List.mem_map.mp hbinding
      refine .inr ⟨s, h, ⟨hs, houtside, hbound⟩,
        by simpa [HandlerFlowBinding.edge] using hsource, ?_⟩
      exact fun hmem => hout (LoopSite.inside_ast.mpr hmem)
  · rintro (⟨e, he, hsource, hout⟩ | ⟨s, h, ⟨hs, houtside, hbound⟩, rfl, hid⟩)
    · exact ⟨e.target, ⟨e, mem_cfgEdges.mpr (.inl (loopSites_adds hl he)), hsource, rfl⟩, hout⟩
    · let b : HandlerFlowBinding :=
        ⟨s.id, h, bindingContinuation (normalSuccessors (structuralEdges ast)) s.id h⟩
      have hb : b ∈ sourceBindings (normalSuccessors (structuralEdges ast))
          (scopesAround ast s.around) s.id s.stmt := List.mem_map.mpr ⟨h, hbound, rfl⟩
      refine ⟨b.edge.target, ⟨b.edge, mem_cfgEdges.mpr (.inr (.inr ⟨b, ?_, rfl⟩)), rfl, rfl⟩, ?_⟩
      · exact statementSites_bindings (p := []) hs houtside hb
      · exact fun hinside => hid (LoopSite.inside_ast.mp hinside)

end Procedure

end AtlasDb.Analysis
