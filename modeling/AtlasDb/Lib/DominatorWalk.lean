import AtlasDb.Lib.Dominators
import Mathlib.Data.List.Duplicate

/-!
# The walk up a dominator tree

`dominatesLoop` goes from a node to its immediate dominator, from there to the next, and so on. On a
dictionary of immediate dominators it ends, and the nodes on its way are the dominators of the node
it started at (`dominatesAnswer_iff`). Domination is said of paths written out as lists
(`dominates_iff`), and it can be said of the graph with all edges turned round (`avoids_swap`).
-/

namespace AtlasDb.Lib

variable {V : Type} {edge : V → V → Prop} {start : V}

/-! ## Paths -/

/-- `Path edge a path b`: the nodes of `path` lead from `a` to `b`. -/
inductive Path (edge : V → V → Prop) : V → List V → V → Prop where
  | single (a : V) : Path edge a [a] a
  | cons {a b c : V} {path : List V} (hstep : edge a b) (h : Path edge b path c) :
      Path edge a (a :: path) c

/-- There is a path from `a` to `b` without `m`. -/
def Avoids (edge : V → V → Prop) (m a b : V) : Prop :=
  a ≠ m ∧ Relation.ReflTransGen (fun x y => edge x y ∧ y ≠ m) a b

theorem Avoids.ne {m a b : V} (h : Avoids edge m a b) : b ≠ m := by
  obtain ⟨hne, hpath⟩ := h
  cases hpath with
  | refl => exact hne
  | tail _ hstep => exact hstep.2

theorem avoids_iff_path {m a b : V} : Avoids edge m a b ↔ ∃ path, Path edge a path b ∧
    m ∉ path := by
  constructor
  · rintro ⟨hne, hpath⟩
    induction hpath using Relation.ReflTransGen.head_induction_on with
    | refl => exact ⟨[b], .single b, by simpa using hne.symm⟩
    | @head x y hstep _ ih =>
      obtain ⟨path, hpath, hm⟩ := ih hstep.2
      refine ⟨x :: path, .cons hstep.1 hpath, ?_⟩
      rw [List.mem_cons, not_or]
      exact ⟨hne.symm, hm⟩
  · rintro ⟨path, hpath, hm⟩
    induction hpath with
    | single a => exact ⟨fun h => hm (by rw [h]; exact List.mem_singleton_self _), .refl⟩
    | @cons a b c path hstep hpath ih =>
      rw [List.mem_cons, not_or] at hm
      obtain ⟨hne, hrest⟩ := ih hm.2
      exact ⟨Ne.symm hm.1, .head ⟨hstep, hne⟩ hrest⟩

/-- Turning all edges round turns the paths round. -/
theorem avoids_swap {m a b : V} : Avoids (fun x y => edge y x) m b a ↔ Avoids edge m a b := by
  have hturn : ∀ {edge : V → V → Prop} {a b : V}, Avoids edge m a b →
    Avoids (fun x y => edge y x) m b a := by
    rintro edge a b ⟨hne, hpath⟩
    induction hpath with
    | refl => exact ⟨hne, .refl⟩
    | @tail x y hpath hstep ih => exact ⟨hstep.2, .head ⟨hstep.1, Avoids.ne ⟨hne, hpath⟩⟩ ih.2⟩
  exact ⟨hturn, hturn⟩

theorem dominates_iff_avoids {m a b : V} : Dominates edge a m b ↔ ¬ Avoids edge m a b := by
  have hbefore : m ≠ b → (ReachesBefore edge m a b ↔ Avoids edge m a b) := by
    intro hne
    constructor
    · intro h
      induction h using Relation.ReflTransGen.head_induction_on with
      | refl => exact ⟨hne.symm, .refl⟩
      | head hstep _ ih => exact ⟨hstep.2, .head ⟨hstep.1, ih.1⟩ ih.2⟩
    · rintro ⟨hstart, h⟩
      induction h using Relation.ReflTransGen.head_induction_on with
      | refl => exact .refl
      | head hstep _ ih => exact .head ⟨hstep.1, hstart⟩ (ih hstep.2)
  by_cases hne : m = b
  · exact iff_of_true (.inl hne) fun h => h.ne hne.symm
  · rw [Dominates, or_iff_right hne, hbefore hne]

/-- **Domination on paths**: every path from `a` to `b` goes through `m`. -/
theorem dominates_iff {m a b : V} : Dominates edge a m b ↔ ∀ path, Path edge a path b →
    m ∈ path := by
  rw [dominates_iff_avoids, avoids_iff_path]
  constructor
  · intro h path hpath
    by_contra hm
    exact h ⟨path, hpath, hm⟩
  · rintro h ⟨path, hpath, hm⟩
    exact hm (h path hpath)

/-! ## Strict domination -/

/-- On the way to a node that is looked for, one comes first. -/
theorem exists_first_reached {P : V → Prop} {n : V} (h : Relation.ReflTransGen edge start n)
    (hn : P n) :
    ∃ x, P x ∧ Relation.ReflTransGen (fun x y => edge x y ∧ ¬ P x) start x := by
  have hfirst : ∀ {y}, Relation.ReflTransGen edge start y →
      (∃ x, P x ∧ Relation.ReflTransGen (fun x y => edge x y ∧ ¬ P x) start x) ∨
        Relation.ReflTransGen (fun x y => edge x y ∧ ¬ P x) start y := by
    intro y h
    induction h with
    | refl => exact .inr .refl
    | @tail x y _ hstep ih =>
      rcases ih with ih | ih
      · exact .inl ih
      by_cases hx : P x
      · exact .inl ⟨x, hx, ih⟩
      · exact .inr (.tail ih ⟨hstep, hx⟩)
  rcases hfirst h with h | h
  · exact h
  · exact ⟨n, hn, h⟩

theorem Dominates.antisymm {a b : V} (ha : Relation.ReflTransGen edge start a)
    (hab : Dominates edge start a b) (hba : Dominates edge start b a) : a = b := by
  by_contra hne
  obtain ⟨x, hx, hpath⟩ := exists_first_reached (P := fun x => x = a ∨ x = b) ha (.inl rfl)
  rcases hx with rfl | rfl
  · refine hba.elim (fun h => hne h.symm) fun h => h ?_
    exact Relation.ReflTransGen.mono
      (fun _ _ hstep => ⟨hstep.1, fun h => hstep.2 (.inr h)⟩) _ _ hpath
  · refine hab.elim hne fun h => h ?_
    exact Relation.ReflTransGen.mono
      (fun _ _ hstep => ⟨hstep.1, fun h => hstep.2 (.inl h)⟩) _ _ hpath

theorem Dominates.reaches {m n : V} (hn : Relation.ReflTransGen edge start n)
    (h : Dominates edge start m n) : Relation.ReflTransGen edge start m := by
  obtain ⟨x, hx, hpath⟩ := exists_first_reached (P := fun x => x = m ∨ x = n) hn (.inr rfl)
  have hreach := Relation.ReflTransGen.mono (fun _ _ hstep => hstep.1) _ _ hpath
  rcases hx with rfl | rfl
  · exact hreach
  · refine h.elim (fun heq => heq ▸ hreach) fun hnot => absurd ?_ hnot
    exact Relation.ReflTransGen.mono
      (fun _ _ hstep => ⟨hstep.1, fun h => hstep.2 (.inl h)⟩) _ _ hpath

/-- The start is dominated by itself alone. -/
theorem dominates_start_iff {m : V} : Dominates edge start m start ↔ start = m :=
  ⟨fun h => h.elim Eq.symm fun hpath => absurd .refl hpath, fun h => .inl h.symm⟩

/-! ## The loop -/

variable [DecidableEq V]

/-- The walk from `current` up the dictionary in search of `candidate`; `none` if it is not over
after the given number of turns. -/
def dominatesLoop (dict : V → Option (Option V)) (candidate : V) :
    Nat → Option V → List V → Option Bool
  | 0, _, _ => none
  | _ + 1, none, _ => some false
  | turns + 1, some current, seen =>
    match dict current with
    | none => some (current = candidate)
    | some parent =>
      if current ∈ seen then some (current = candidate)
      else if current = candidate then some true
      else if parent = some current then some (current = candidate)
      else dominatesLoop dict candidate turns parent (current :: seen)

section Loop

variable {dict : V → Option (Option V)} {candidate : V}

/-- More turns change nothing. -/
theorem dominatesLoop_mono {turns : Nat} {current : Option V} {seen : List V} {answer : Bool}
    (h : dominatesLoop dict candidate turns current seen = some answer) (more : Nat) :
    dominatesLoop dict candidate (turns + more) current seen = some answer := by
  induction turns generalizing current seen with
  | zero => cases h
  | succ turns ih =>
    rw [Nat.add_right_comm]
    cases current with
    | none => exact h
    | some current =>
      rw [dominatesLoop] at h ⊢
      cases hdict : dict current with
      | none =>
        rw [hdict] at h
        exact h
      | some parent =>
        rw [hdict] at h
        dsimp only at h ⊢
        split at h
        · next hseen => rw [if_pos hseen, h]
        split at h
        · next hseen hfound => rw [if_neg hseen, if_pos hfound, h]
        split at h
        · next hseen hfound hparent => rw [if_neg hseen, if_neg hfound, if_pos hparent, h]
        · next hseen hfound hparent =>
            rw [if_neg hseen, if_neg hfound, if_neg hparent]
            exact ih h

/-- The loop ends: every turn but the last takes a new key of the dictionary. -/
theorem dominatesLoop_ends {keys : List V} (hkeys : ∀ n, dict n ≠ none → n ∈ keys) {turns : Nat}
    {current : Option V} {seen : List V} (hnodup : seen.Nodup) (hseen : seen ⊆ keys)
    (hturns : keys.length < turns + seen.length) :
    ∃ answer, dominatesLoop dict candidate turns current seen = some answer := by
  induction turns generalizing current seen with
  | zero =>
    have hle := (List.Nodup.subperm hnodup hseen).length_le
    omega
  | succ turns ih =>
    cases current with
    | none => exact ⟨false, rfl⟩
    | some current =>
      rw [dominatesLoop]
      cases hdict : dict current with
      | none => exact ⟨_, rfl⟩
      | some parent =>
        dsimp only
        split
        · exact ⟨_, rfl⟩
        · next hnew =>
            split
            · exact ⟨_, rfl⟩
            split
            · exact ⟨_, rfl⟩
            have hkey : current ∈ keys := hkeys current (by rw [hdict]; exact nofun)
            refine ih (List.nodup_cons.mpr ⟨hnew, hnodup⟩) (List.cons_subset.mpr ⟨hkey, hseen⟩) ?_
            rw [List.length_cons]
            omega

/-- The nodes that have been seen are strictly dominated by the current one, so none comes back. -/
theorem dominatesLoop_iff (hdict : DominatorDict edge start dict) {turns : Nat} {current : V}
    {seen : List V} {answer : Bool} (hreach : Relation.ReflTransGen edge start current)
    (hseen : ∀ n ∈ seen, n ≠ current ∧ Dominates edge start current n)
    (h : dominatesLoop dict candidate turns (some current) seen = some answer) :
    answer = true ↔ Dominates edge start candidate current := by
  induction turns generalizing current seen with
  | zero => cases h
  | succ turns ih =>
    have hnew : current ∉ seen := fun hmem => (hseen current hmem).1 rfl
    rw [dominatesLoop] at h
    by_cases hstart : current = start
    · subst hstart
      rw [dominates_start_iff]
      rcases hdict.start_eq with heq | heq | heq
      · rw [heq] at h
        dsimp only at h
        rw [if_neg hnew] at h
        split at h
        · next hfound => exact iff_of_true (Option.some.inj h).symm hfound
        · rw [if_pos rfl] at h
          rw [← Option.some.inj h, decide_eq_true_eq]
      · rw [heq] at h
        dsimp only at h
        rw [if_neg hnew] at h
        split at h
        · next hfound => exact iff_of_true (Option.some.inj h).symm hfound
        · next hfound =>
            rw [if_neg nofun] at h
            -- the empty entry ends the walk
            cases turns with
            | zero => cases h
            | succ turns =>
              rw [← Option.some.inj h]
              exact iff_of_false nofun hfound
      · rw [heq] at h
        rw [← Option.some.inj h, decide_eq_true_eq]
    · obtain ⟨d, hd, hne, hdom, hgreatest⟩ := hdict.reachable current hstart hreach
      rw [hd] at h
      dsimp only at h
      rw [if_neg hnew] at h
      split at h
      · next hfound => exact iff_of_true (Option.some.inj h).symm (.inl hfound.symm)
      · next hfound =>
          rw [if_neg fun heq => hne (Option.some.inj heq)] at h
          have hreach' := hdom.reaches hreach
          have hstep : Dominates edge start candidate current ↔ Dominates edge start candidate d :=
            ⟨hgreatest candidate fun heq => hfound heq.symm, fun hcandidate =>
              hcandidate.trans hdom⟩
          rw [hstep]
          refine ih hreach' (fun n hn => ?_) h
          rcases List.mem_cons.mp hn with rfl | hn
          · exact ⟨hne.symm, hdom⟩
          · obtain ⟨hne', hdom'⟩ := hseen n hn
            refine ⟨?_, hdom.trans hdom'⟩
            rintro rfl
            exact hne' (Dominates.antisymm hreach' hdom hdom')

end Loop

/-- The answer of the loop, with a turn for every key that a dictionary of `edges` may have. -/
def dominatesAnswer (edges : List (V × V)) (dict : V → Option (Option V)) (candidate target : V) :
    Bool :=
  dominatesLoop dict candidate (edges.length + 2) (some target) [] = some true

/-- The loop ends with the answer, however many more turns it gets. -/
def LoopAnswers (dict : V → Option (Option V)) (candidate target : V) (answer : Bool) : Prop :=
  ∃ turns, ∀ more, dominatesLoop dict candidate (turns + more) (some target) [] = some answer

theorem LoopAnswers.unique {dict : V → Option (Option V)} {candidate target : V} {a b : Bool}
    (ha : LoopAnswers dict candidate target a) (hb : LoopAnswers dict candidate target b) :
    a = b := by
  obtain ⟨turns, ha⟩ := ha
  obtain ⟨turns', hb⟩ := hb
  have h := ha turns'
  rw [Nat.add_comm, hb turns] at h
  exact (Option.some.inj h).symm

section Answer

variable {edges : List (V × V)} {dict : V → Option (Option V)} {candidate target : V}

omit [DecidableEq V] in
/-- A dictionary has no keys but the start and the ends of edges. -/
theorem DominatorDict.mem_keys (hdict : DominatorDict (EdgeIn edges) start dict) {n : V}
    (hn : dict n ≠ none) : n ∈ start :: edges.map Prod.snd := by
  have hreach : Relation.ReflTransGen (EdgeIn edges) start n := by
    by_contra hnot
    exact hn (hdict.unreachable n hnot)
  cases hreach with
  | refl => exact List.mem_cons_self
  | @tail x _ _ hstep => exact List.mem_cons_of_mem _ (List.mem_map.mpr ⟨(x, n), hstep, rfl⟩)

/-- **The loop ends** on the dictionary of a finite graph, and `dominatesAnswer` is its answer. -/
theorem dominatesAnswer_returns (hdict : DominatorDict (EdgeIn edges) start dict)
    (candidate target : V) :
    LoopAnswers dict candidate target (dominatesAnswer edges dict candidate target) := by
  obtain ⟨answer, hanswer⟩ := @dominatesLoop_ends _ _ _ candidate _ (fun _ => hdict.mem_keys)
    (edges.length + 2) (some target) [] List.nodup_nil (List.nil_subset _) (by simp)
  have heq : dominatesAnswer edges dict candidate target = answer := by
    rw [dominatesAnswer, hanswer]
    cases answer with
    | true => rfl
    | false => rfl
  rw [heq]
  exact ⟨_, dominatesLoop_mono hanswer⟩

/-- The loop finds the dominators of a node that can be reached. -/
theorem dominatesAnswer_iff (hdict : DominatorDict (EdgeIn edges) start dict)
    (hreach : Relation.ReflTransGen (EdgeIn edges) start target) :
    dominatesAnswer edges dict candidate target = true ↔
      Dominates (EdgeIn edges) start candidate target := by
  obtain ⟨turns, hturns⟩ := dominatesAnswer_returns hdict candidate target
  exact dominatesLoop_iff hdict hreach (fun _ h => absurd h List.not_mem_nil) (hturns 0)

/-- Of a node that cannot be reached the loop finds the node alone. -/
theorem dominatesAnswer_unreachable (hdict : DominatorDict (EdgeIn edges) start dict)
    (hnot : ¬ Relation.ReflTransGen (EdgeIn edges) start target) :
    dominatesAnswer edges dict candidate target = true ↔ candidate = target := by
  simp [dominatesAnswer, dominatesLoop, hdict.unreachable target hnot, eq_comm]

/-- What the loop finds dominates the target. -/
theorem dominates_of_dominatesAnswer (hdict : DominatorDict (EdgeIn edges) start dict)
    (h : dominatesAnswer edges dict candidate target = true) :
    Dominates (EdgeIn edges) start candidate target := by
  by_cases hreach : Relation.ReflTransGen (EdgeIn edges) start target
  · exact (dominatesAnswer_iff hdict hreach).mp h
  · exact .inl ((dominatesAnswer_unreachable hdict hreach).mp h)

end Answer

/-! ## The reversed graph with a sink -/

omit [DecidableEq V] in
theorem reflTransGen_some {r : Option V → Option V → Prop} (h : ∀ a, ¬ r (some a) none) {a : V}
    {z : Option V} :
    Relation.ReflTransGen r (some a) z ↔
      ∃ b, z = some b ∧ Relation.ReflTransGen (fun x y => r (some x) (some y)) a b := by
  constructor
  · intro hpath
    induction hpath with
    | refl => exact ⟨a, rfl, .refl⟩
    | @tail _ z _ hstep ih =>
      obtain ⟨b, rfl, hpath⟩ := ih
      cases z with
      | none => exact absurd hstep (h b)
      | some c => exact ⟨c, rfl, hpath.tail hstep⟩
  · rintro ⟨b, rfl, hpath⟩
    induction hpath with
    | refl => exact .refl
    | tail _ hstep ih => exact ih.tail hstep

/-- All edges turned round, and a sink, `none`, in front of the exits. -/
def sinkEdge (edge : V → V → Prop) (exits : V → Prop) : Option V → Option V → Prop
  | none, some y => exits y
  | some x, some y => edge y x
  | _, none => False

section Sink

variable {exits : V → Prop} {m t : V}

omit [DecidableEq V] in
theorem not_sinkEdge_none (a : Option V) : ¬ sinkEdge edge exits a none := by
  cases a with
  | none => exact id
  | some a => exact id

omit [DecidableEq V] in
/-- From the sink the nodes are reached from which an exit is reached. -/
theorem reaches_sink_iff :
    Relation.ReflTransGen (sinkEdge edge exits) none (some t) ↔
      ∃ e, exits e ∧ Relation.ReflTransGen edge t e := by
  constructor
  · intro h
    obtain hnone | ⟨y, hexit, hpath⟩ := h.cases_head
    · cases hnone
    cases y with
    | none => exact absurd hexit (not_sinkEdge_none none)
    | some e =>
      obtain ⟨_, heq, hback⟩ := (reflTransGen_some fun a => not_sinkEdge_none (some a)).mp hpath
      obtain rfl := Option.some.inj heq
      exact ⟨e, hexit, Relation.reflTransGen_swap.mp hback⟩
  · rintro ⟨e, hexit, hpath⟩
    refine .head (b := some e) hexit ?_
    exact (reflTransGen_some fun a => not_sinkEdge_none (some a)).mpr
      ⟨t, rfl, Relation.reflTransGen_swap.mpr hpath⟩

omit [DecidableEq V] in
theorem avoids_sink_iff :
    Avoids (sinkEdge edge exits) (some m) none (some t) ↔ ∃ e, exits e ∧ Avoids edge m t e := by
  have hlast : ∀ a, ¬ (sinkEdge edge exits (some a) none ∧ none ≠ some m) :=
    fun a h => not_sinkEdge_none (some a) h.1
  constructor
  · rintro ⟨-, h⟩
    obtain hnone | ⟨y, ⟨hexit, hne⟩, hpath⟩ := h.cases_head
    · cases hnone
    cases y with
    | none => exact absurd hexit (not_sinkEdge_none none)
    | some e =>
      obtain ⟨_, heq, hback⟩ := (reflTransGen_some hlast).mp hpath
      obtain rfl := Option.some.inj heq
      refine ⟨e, hexit, avoids_swap.mp ⟨fun heq => hne (congrArg some heq), ?_⟩⟩
      exact Relation.ReflTransGen.mono
        (fun _ _ hstep => ⟨hstep.1, fun heq => hstep.2 (congrArg some heq)⟩) _ _ hback
  · rintro ⟨e, hexit, havoids⟩
    obtain ⟨hne, hback⟩ := avoids_swap.mpr havoids
    refine ⟨nofun, .head (b := some e) ⟨hexit, fun heq => hne (Option.some.inj heq)⟩ ?_⟩
    refine (reflTransGen_some hlast).mpr ⟨t, rfl, ?_⟩
    exact Relation.ReflTransGen.mono
      (fun _ _ hstep => ⟨hstep.1, fun heq => hstep.2 (Option.some.inj heq)⟩) _ _ hback

omit [DecidableEq V] in
/-- A node dominates another from the sink iff every path to an exit goes through it. -/
theorem dominates_sink_iff :
    Dominates (sinkEdge edge exits) none (some m) (some t) ↔
      ∀ e, exits e → ∀ path, Path edge t path e → m ∈ path := by
  rw [dominates_iff_avoids, avoids_sink_iff, not_exists]
  refine forall_congr' fun e => ?_
  rw [not_and, ← dominates_iff_avoids, dominates_iff]

end Sink

end AtlasDb.Lib
