import AtlasDb.Analysis.Bundles
import AtlasDb.Semantics.Simulation

/-!
# Dominators and executions

A node that dominates a visited node was visited before it, one that postdominates it is visited
before the procedure is left. Both are facts about closed sets of graph nodes, tracked along a
regular run: the first from the start of the procedure (`visited_before`), the second from the
visit on (`visited_after`). In the middle of a run a `CONTINUE` handler may be active whose end the
graph does not know; so the second needs a node outside the bodies of `CONTINUE` handlers.
-/

namespace AtlasDb.Semantics

open Core Lib Parsing Analysis

/-! ## At most one handler is active -/

/-- The handler whose body is being executed. -/
def currentHandler : List Frame → Option Handler
  | [] => none
  | .handler h _ _ :: _ => some h
  | .block _ _ _ :: k => currentHandler k
  | .loop _ _ :: k => currentHandler k

theorem inHandler_eq (k : List Frame) : inHandler k = (currentHandler k).isSome := by
  induction k with
  | nil => rfl
  | cons f k ih =>
    cases f with
    | block => exact ih
    | loop => exact ih
    | handler => rfl

/-- The code is part of the body of the handler being executed, if there is one. -/
def CodeLocal (code : List Node) (k : List Frame) : Prop :=
  ∀ h, currentHandler k = some h → refsOf code ⊆ refsOf h.body

/-- No handler was called inside another one, and what the frames hold is local. -/
def FramesLocal (ast : ProcedureAst) : List Frame → Prop
  | [] => True
  | .block _ _ rest :: k => CodeLocal rest k ∧ FramesLocal ast k
  | .loop l rest :: k => CodeLocal (l.node :: rest) k ∧ FramesLocal ast k
  | .handler h _ _ :: k => h ∈ handlersOf ast.body ∧ currentHandler k = none ∧ FramesLocal ast k

def Local (ast : ProcedureAst) : Config → Prop
  | .run code k => CodeLocal code k ∧ FramesLocal ast k
  | .header l _ rest k => CodeLocal (l.node :: rest) k ∧ FramesLocal ast k
  | .returned => True
  | .escaped => True

variable {ast : ProcedureAst} {k : List Frame}

theorem CodeLocal.of_none {code : List Node} (h : currentHandler k = none) :
    CodeLocal code k := by
  intro h' hh'
  rw [h] at hh'
  cases hh'

theorem CodeLocal.mono {code code' : List Node} (h : CodeLocal code k)
    (hsub : refsOf code' ⊆ refsOf code) : CodeLocal code' k :=
  fun h' hh' => List.Subset.trans hsub (h h' hh')

theorem CodeLocal.tail {n : Node} {ns : List Node} (h : CodeLocal (n :: ns) k) :
    CodeLocal ns k :=
  h.mono (List.subset_append_right _ _)

theorem refsOf_arm {id : NodeRef} {arms : List Arm} {arm : Arm} (h : arm ∈ arms) :
    arm.header.armId :: refsOf arm.body ⊆ (Node.ifRegion id arms).refs := by
  refine List.Subset.trans ?_ (List.subset_cons_self _ _)
  induction arms with
  | nil => cases h
  | cons a arms ih =>
    obtain ⟨header, body⟩ := a
    intro r hr
    simp only [refsOfArms, List.mem_cons, List.mem_append]
    rcases List.mem_cons.mp h with rfl | h
    · rcases List.mem_cons.mp hr with rfl | hr
      · exact .inl rfl
      · exact .inr (.inl hr)
    · exact .inr (.inr (ih h hr))

theorem Continues.isLocal {c : Config} (h : Continues k c)
    (hk : FramesLocal ast k) : Local ast c := by
  induction h with
  | block => exact hk
  | loopExit => exact ⟨hk.1.tail, hk.2⟩
  | loopHeader => exact hk
  | handlerEnd => exact ⟨fun _ _ => by simp [refsOf], hk⟩
  | @outer f k c _ ih =>
    cases f with
    | block => exact ih hk.2
    | loop => exact ih hk.2
    | handler => exact ih hk.2.2

/-- A step keeps control in its handler. -/
theorem RegularStep.isLocal {collate : Char → Nat} {M : ConditionModel}
    {base : List Frame} {a b : Config} {visits : List Visit}
    (step : RegularStep collate M ast base a visits b)
    (hplaced : Placed ast a) (ha : Local ast a) : Local ast b := by
  have hreg := step.2
  have hstep := step.foreseen
  cases hstep with
  | finish => trivial
  | leaveBlock => exact ha.2
  | nextIteration => exact ha.2
  | resume => exact ⟨.of_none ha.2.2.1, ha.2.2.2⟩
  | exitBlock _ hexit => exact (exitDeclaring_continues hexit).isLocal ha.2.2.2
  | exitProcedure => trivial
  | declaration => exact ⟨ha.1.tail, ha.2⟩
  | complete => exact ⟨ha.1.tail, ha.2⟩
  | @raise a id stmt ns k c h hat _ htakes =>
    obtain ⟨rfl, -⟩ := hat.of_takes htakes
    have hnone : currentHandler k = none := by
      by_contra hsome
      refine hreg (.nestedRaise hat ?_)
      rw [inHandler_eq]
      exact Option.isSome_iff_ne_none.mpr hsome
    have hmem := activeScopes_subset hplaced.2 htakes.mem
    refine ⟨?_, hmem, hnone, ha.2⟩
    intro h' hh'
    obtain rfl : h = h' := Option.some.inj hh'
    exact List.Subset.refl _
  | escape => trivial
  | «return» => trivial
  | jump _ hjump =>
    rcases jump_continues hjump with rfl | hb
    · trivial
    · exact hb.isLocal ha.2
  | compound =>
    refine ⟨ha.1.mono ?_, ha.1.tail, ha.2⟩
    exact fun r hr => List.mem_append_left _ (List.mem_cons_of_mem _ hr)
  | @ifArm id arms arm ns k htake =>
    obtain ⟨before, after, rfl, -⟩ := htake
    refine ⟨ha.1.mono ?_, ha.2⟩
    rw [refsOf_append]
    have harm : refsOf arm.body ⊆ (Node.ifRegion id (before ++ arm :: after)).refs :=
      List.Subset.trans (List.subset_cons_self _ _) (refsOf_arm (by simp))
    exact List.append_subset.mpr ⟨List.subset_append_of_subset_left _ harm,
      List.subset_append_right _ _⟩
  | ifNoMatch => exact ⟨ha.1.tail, ha.2⟩
  | loop => exact ha
  | loopBody =>
    refine ⟨ha.1.mono ?_, ha⟩
    exact fun r hr => List.mem_append_left _ (List.mem_cons_of_mem _ hr)
  | loopExit => exact ⟨ha.1.tail, ha.2⟩

theorem FramesLocal.current {h : Handler} {source : Statement}
    {rest : List Node} {k k' : List Frame} (hk : FramesLocal ast k)
    (hsuffix : .handler h source rest :: k' <:+ k) :
    currentHandler k = some h ∧ h ∈ handlersOf ast.body := by
  induction k with
  | nil => simp at hsuffix
  | cons f k ih =>
    rcases List.suffix_cons_iff.mp hsuffix with heq | hinner
    · obtain ⟨rfl, rfl⟩ := List.cons.inj heq
      exact ⟨rfl, hk.1⟩
    · cases f with
      | block => exact ih hk.2 hinner
      | loop => exact ih hk.2 hinner
      | handler h' source' rest' =>
        have hcurrent := ih hk.2.2 hinner
        rw [hk.2.1] at hcurrent
        cases hcurrent.1

/-- What a step visits lies in the current handler. -/
theorem RegularStep.visit_isLocal {collate : Char → Nat} {M : ConditionModel}
    {base : List Frame} {a b : Config} {visits : List Visit} {v : Visit} {h : Handler}
    (step : RegularStep collate M ast base a visits b) (ha : Local ast a) (hv : v ∈ visits)
    (hcurrent : currentHandler (frames a) = some h) : v.node ∈ refsOf h.body := by
  have hreg := step.2
  have hstep := step.foreseen
  have hfirst : ∀ {n : Node} {ns : List Node} {k : List Frame}, CodeLocal (n :: ns) k →
      currentHandler k = some h → ∀ r ∈ n.refs, r ∈ refsOf h.body :=
    fun hcode hk r hr => hcode h hk (List.mem_append_left _ hr)
  cases hstep with
  | finish => cases hv
  | leaveBlock => cases hv
  | nextIteration => cases hv
  | resume => cases hv
  | exitBlock => cases hv
  | exitProcedure => cases hv
  | declaration => cases hv
  | loop => cases hv
  | complete =>
    obtain rfl := List.mem_singleton.mp hv
    exact hfirst ha.1 hcurrent _ List.mem_cons_self
  | @raise a id stmt ns k c h' hat _ htakes =>
    obtain ⟨rfl, -⟩ := hat.of_takes htakes
    have hin : inHandler k = true := by
      rw [inHandler_eq, show currentHandler k = some h from hcurrent]
      rfl
    exact absurd (.nestedRaise hat hin) hreg
  | escape =>
    obtain rfl := List.mem_singleton.mp hv
    exact hfirst ha.1 hcurrent _ List.mem_cons_self
  | «return» =>
    obtain rfl := List.mem_singleton.mp hv
    exact hfirst ha.1 hcurrent _ List.mem_cons_self
  | jump =>
    obtain rfl := List.mem_singleton.mp hv
    exact hfirst ha.1 hcurrent _ List.mem_cons_self
  | compound =>
    obtain rfl := List.mem_singleton.mp hv
    exact hfirst ha.1 hcurrent _ List.mem_cons_self
  | @ifArm id arms arm ns k htake =>
    obtain ⟨before, after, rfl, -⟩ := htake
    rcases List.mem_cons.mp hv with rfl | hv
    · exact hfirst ha.1 hcurrent _ List.mem_cons_self
    · obtain rfl := List.mem_singleton.mp hv
      have harm : arm ∈ before ++ arm :: after := by simp
      exact hfirst ha.1 hcurrent _ (refsOf_arm harm List.mem_cons_self)
  | ifNoMatch =>
    obtain rfl := List.mem_singleton.mp hv
    exact hfirst ha.1 hcurrent _ List.mem_cons_self
  | loopBody =>
    obtain rfl := List.mem_singleton.mp hv
    exact hfirst ha.1 hcurrent _ List.mem_cons_self
  | loopExit =>
    obtain rfl := List.mem_singleton.mp hv
    exact hfirst ha.1 hcurrent _ List.mem_cons_self

/-! ## Tracking from a visit on -/

/-- The `CONTINUE` handlers and what is inside them. -/
def continueRefs (ast : ProcedureAst) : List NodeRef :=
  ((handlersOf ast.body).filter fun h => h.region.handlerKind = .continue).flatMap fun h =>
    h.id :: refsOf h.body

theorem mem_continueRefs {h : Handler} {r : NodeRef}
    (hh : h ∈ handlersOf ast.body) (hkind : h.region.handlerKind = .continue)
    (hr : r ∈ h.id :: refsOf h.body) : r ∈ continueRefs ast := by
  refine List.mem_flatMap.mpr ⟨h, List.mem_filter.mpr ⟨hh, ?_⟩, hr⟩
  simpa using hkind

theorem Walk.from_visit {x y : CfgRef} {before after : List Visit} {v : Visit}
    (walk : Walk ast x (before ++ v :: after) y) : Walk ast (.ast v.node) (v :: after) y := by
  induction before generalizing x with
  | nil =>
    cases walk with
    | cons he hsource hkind rest => exact .cons he hsource hkind rest
  | cons u before ih =>
    cases walk with
    | cons _ _ _ rest => exact ih rest

section Visits

variable {collate : Char → Nat} {M : ConditionModel} {ast : ProcedureAst} {avoid : NodeRef → Prop}
  {R : CfgRef → Prop}
  {a b c : Config} {before after inner : List Visit} {v : Visit}

theorem tracked_after_visit (hclosed : ClosedUnless ast avoid R)
    (step : RegularStep collate M ast [] a (inner ++ v :: after) b) (hplaced : Placed ast a)
    (ha : Local ast a) (hv : v.node ∉ continueRefs ast) (hR : R (.ast v.node))
    (hgood : ∀ u ∈ v :: after, ¬ avoid u.node) : Tracked R [] b where
  here := by
    rcases step.walk hplaced with hwalk | ⟨h, source, rest, k, -, -, hnil, -⟩
    · exact hwalk.from_visit.target_mem hclosed hR hgood
    · simp at hnil
  resumes := by
    intro h source rest k hsuffix hkind hsource
    have hlocal : FramesLocal ast (frames a) := by
      cases a with
      | run => exact ha.2
      | header => exact ha.2
      | returned => trivial
      | escaped => trivial
    -- a CONTINUE handler that was active before would have the node inside it
    have hold : ¬ .handler h source rest :: k <:+ frames a := by
      intro hsuffix
      obtain ⟨hcurrent, hmem⟩ := hlocal.current hsuffix
      have hbody := step.visit_isLocal ha (v := v) (by simp) hcurrent
      exact hv (mem_continueRefs hmem hkind (List.mem_cons_of_mem _ hbody))
    rcases Step.frames_cases step.foreseen
      with hdrop | ⟨f, hpush, hf⟩ | ⟨id, stmt, ns, k', h', rfl, rfl, hlabels, hk', -⟩
    · exact absurd (hsuffix.trans hdrop) hold
    · rw [hpush, List.suffix_cons_iff] at hsuffix
      rcases hsuffix with heq | hsuffix
      · exact absurd (List.cons.inj heq).1.symm (hf h source rest)
      · exact absurd hsuffix hold
    · rcases List.suffix_cons_iff.mp hsuffix with heq | hsuffix
      · obtain ⟨hframe, rfl⟩ := List.cons.inj heq
        obtain ⟨rfl, rfl, rfl⟩ : h = h' ∧ source = stmt ∧ rest = ns := by simpa using hframe
        have hordinary : isOrdinary source.kind = true := hk'.resolve_right (by simp [hsource])
        have hmem : h ∈ handlersOf ast.body := (step.isLocal hplaced ha).2.1
        -- the visit is that of the raising statement, not that of the handler
        cases inner with
        | nil =>
          obtain ⟨rfl, rfl⟩ : v = ⟨id, .raised⟩ ∧ after = [⟨h.id, .completed⟩] := by
            simpa using hlabels
          exact .inr (resume_mem hclosed hplaced.1 hordinary hR (hgood ⟨id, .raised⟩ (by simp)))
        | cons u inner =>
          have hvh : v = ⟨h.id, .completed⟩ := by
            have hlast : inner ++ v :: after = [⟨h.id, .completed⟩] := by
              simpa using (List.cons.inj hlabels).2
            have hmem : v ∈ [(⟨h.id, .completed⟩ : Visit)] := hlast ▸ by simp
            exact List.mem_singleton.mp hmem
          refine absurd (mem_continueRefs hmem hkind ?_) hv
          rw [hvh]
          exact List.mem_cons_self
      · exact absurd hsuffix hold

theorem local_run {visits : List Visit} (run : Run (RegularStep collate M ast []) a visits b)
    (ha : Placed ast a ∧ Local ast a) : Placed ast b ∧ Local ast b :=
  run.invariant (I := fun c => Placed ast c ∧ Local ast c)
    (fun step ha => ⟨step.1.placed ha.1, step.isLocal ha.1 ha.2⟩) ha

theorem local_start (ast : ProcedureAst) : Local ast (start ast) :=
  ⟨.of_none rfl, trivial⟩

theorem run_end_mem (hclosed : ClosedUnless ast avoid R)
    (run : Run (RegularStep collate M ast []) (start ast) (before ++ v :: after) c)
    (hv : v.node ∉ continueRefs ast) (hR : R (.ast v.node))
    (hgood : ∀ u ∈ v :: after, ¬ avoid u.node) : R (pos c) := by
  obtain ⟨s, s', first, inner, inner', last, hfirst, hstep, hlast, rfl, rfl⟩ := run.at_label rfl
  obtain ⟨hplaced, hlocal⟩ := local_run hfirst ⟨placed_start ast, local_start ast⟩
  have htracked := tracked_after_visit hclosed hstep hplaced hlocal hv hR fun u hu =>
    hgood u (by rw [← List.cons_append]; exact List.mem_append_left _ hu)
  have hend := run_tracked hclosed hlast (hstep.1.placed hplaced) htracked fun u hu =>
    hgood u (List.mem_cons_of_mem _ (List.mem_append_right _ hu))
  exact hend.2.here

/-- A closed set holds what a run visits later. -/
theorem run_later_mem {u : Visit} {mid : List Visit} (hclosed : ClosedUnless ast avoid R)
    (run : Run (RegularStep collate M ast []) (start ast) (before ++ v :: (mid ++ u :: after)) c)
    (hv : v.node ∉ continueRefs ast) (hR : R (.ast v.node))
    (hgood : ∀ w ∈ v :: mid, ¬ avoid w.node) : R (.ast u.node) := by
  obtain ⟨s, s', first, inner, inner', last, hfirst, hstep, hlast, rfl, hafter⟩ := run.at_label rfl
  obtain ⟨hplaced, hlocal⟩ := local_run hfirst ⟨placed_start ast, local_start ast⟩
  have hnext : (∀ w ∈ inner', w ∈ mid) → Tracked R [] s' := fun hsub =>
    tracked_after_visit hclosed hstep hplaced hlocal hv hR fun w hw =>
      hgood w ((List.mem_cons.mp hw).elim (fun h => h ▸ List.mem_cons_self)
        fun h => List.mem_cons_of_mem _ (hsub w h))
  -- `u` is visited in the same step or later
  rcases List.append_eq_append_iff.mp hafter with ⟨rest, rfl, hrest⟩ | ⟨rest, rfl, hrest⟩
  · cases rest with
    | nil =>
      rw [List.nil_append] at hrest
      subst hrest
      have hfrom := hlast
      rw [← List.nil_append (_ :: _)] at hfrom
      exact run_visit_mem hclosed hfrom (hstep.1.placed hplaced) (hnext (by simp)) (by simp)
    | cons w rest =>
      obtain ⟨rfl, rfl⟩ := List.cons.inj hrest
      rcases hstep.walk hplaced with hwalk | ⟨h, source, rest, k, -, -, hnil, -⟩
      · have hfrom := hwalk.from_visit
        rw [← List.cons_append] at hfrom
        exact hfrom.visit_mem hclosed hR hgood
      · simp at hnil
  · subst hrest
    refine run_visit_mem hclosed hlast (hstep.1.placed hplaced)
      (hnext fun w hw => List.mem_append_left _ hw) fun w hw => hgood w ?_
    exact List.mem_cons_of_mem _ (List.mem_append_right _ hw)

end Visits

/-! ## Dominators -/

/-- The edges of the graph as a relation. -/
def CfgEdgeOf (ast : ProcedureAst) : CfgRef → CfgRef → Prop :=
  EdgeIn (graphEdges (.build ast))

theorem cfgEdgeOf_iff {ast : ProcedureAst} {a b : CfgRef} :
    CfgEdgeOf ast a b ↔ ∃ e ∈ cfgEdges ast, e.source = a ∧ e.target = b := by
  simp [CfgEdgeOf, EdgeIn, graphEdges, ControlFlowGraph.build]

theorem reachesBefore_closed (ast : ProcedureAst) (m : NodeRef) (x : CfgRef) :
    ClosedUnless ast (· = m) (ReachesBefore (CfgEdgeOf ast) (.ast m) x) := by
  intro e he node hsource hnode hne
  refine .tail hnode ⟨cfgEdgeOf_iff.mpr ⟨e, he, hsource, rfl⟩, ?_⟩
  simpa using hne

section Runs

variable {collate : Char → Nat} {M : ConditionModel} {ast : ProcedureAst} {c : Config}
  {before after : List Visit}
  {v : Visit} {m : NodeRef}

theorem visited_before
    (run : Run (RegularStep collate M ast []) (start ast) (before ++ v :: after) c)
    (hdom : Dominates (CfgEdgeOf ast) .entry (.ast m) (.ast v.node)) :
    v.node = m ∨ ∃ u ∈ before, u.node = m := by
  rcases hdom with heq | hpath
  · exact .inl (by simpa using heq.symm)
  · by_contra hnone
    simp only [not_or, not_exists, not_and] at hnone
    refine hpath
      (run_visit_mem (reachesBefore_closed ast m .entry) run (placed_start ast) ?_ hnone.2)
    refine ⟨?_, by simp [start, frames]⟩
    have hentry : CfgEdgeOf ast .entry (pos (start ast)) := by
      refine cfgEdgeOf_iff.mpr ⟨{ source := .entry, target := _, kind := .entry }, ?_, rfl, rfl⟩
      exact List.mem_append_left _ (List.mem_append_right _ List.mem_cons_self)
    exact .single ⟨hentry, nofun⟩

theorem reachesBefore_reversed {n : NodeRef} {x : CfgRef}
    (h : ReachesBefore (CfgEdgeOf ast) (.ast m) (.ast n) x) (hx : x ≠ .ast m) :
    ReachesBefore (EdgeIn (postEdges (.build ast))) (some (.ast m)) (some x) (some (.ast n)) := by
  induction h with
  | refl => exact .refl
  | @tail x y _ hstep ih =>
    have hedge : EdgeIn (postEdges (.build ast)) (some y) (some x) := by
      refine List.mem_cons_of_mem _ (List.mem_cons_of_mem _ (List.mem_map.mpr ⟨(x, y), ?_, rfl⟩))
      exact hstep.1
    exact .head ⟨hedge, by simpa using hx⟩ (ih hstep.2)

/-- The procedure was left. -/
def Exited (c : Config) : Prop := c = .returned ∨ c = .escaped

theorem visited_after
    (run : Run (RegularStep collate M ast []) (start ast) (before ++ v :: after) c)
    (hexit : Exited c) (hv : v.node ∉ continueRefs ast)
    (hdom : Dominates (EdgeIn (postEdges (.build ast))) none (some (.ast m)) (some (.ast v.node))) :
    v.node = m ∨ ∃ u ∈ after, u.node = m := by
  rcases hdom with heq | hpath
  · exact .inl (by simpa using heq.symm)
  · by_contra hnone
    simp only [not_or, not_exists, not_and] at hnone
    have hend : ReachesBefore (CfgEdgeOf ast) (.ast m) (.ast v.node) (pos c) := by
      refine run_end_mem (reachesBefore_closed ast m _) run hv .refl fun u hu => ?_
      rcases List.mem_cons.mp hu with rfl | hu
      · exact hnone.1
      · exact hnone.2 u hu
    have hpos : pos c = .normalExit ∨ pos c = .exceptionalExit := by
      rcases hexit with rfl | rfl
      · exact .inl rfl
      · exact .inr rfl
    have hsink : EdgeIn (postEdges (.build ast)) none (some (pos c)) := by
      rcases hpos with h | h
      · simp [EdgeIn, postEdges, h]
      · simp [EdgeIn, postEdges, h]
    have hne : pos c ≠ .ast m := by
      rcases hpos with h | h
      · simp [h]
      · simp [h]
    refine hpath (.head ⟨hsink, ?_⟩ (reachesBefore_reversed hend hne))
    intro hnone
    cases hnone

theorem visited_between {u : Visit} {mid : List Visit}
    (run : Run (RegularStep collate M ast []) (start ast) (before ++ v :: (mid ++ u :: after)) c)
    (hv : v.node ∉ continueRefs ast)
    (hpath : ¬ ReachesBefore (CfgEdgeOf ast) (.ast m) (.ast v.node) (.ast u.node)) :
    v.node = m ∨ ∃ w ∈ mid, w.node = m := by
  by_contra hnone
  simp only [not_or, not_exists, not_and] at hnone
  refine hpath (run_later_mem (reachesBefore_closed ast m _) run hv .refl fun w hw => ?_)
  rcases List.mem_cons.mp hw with rfl | hw
  · exact hnone.1
  · exact hnone.2 w hw

end Runs

end AtlasDb.Semantics
