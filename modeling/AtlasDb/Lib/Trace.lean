import Mathlib.Data.List.Basic

/-!
# Runs of a labelled transition system

A step carries the labels it emits, in order; a run carries the labels of its steps. Invariants are
proved for one step and hold along runs (`Run.invariant`), also when a step keeps them only as long
as its labels stay good (`Run.invariant_of_labels`). `Run.at_label` finds the step that emitted a
given label.
-/

namespace AtlasDb.Lib

variable {σ ι : Type}

/-! ## The first and the last label of a kind -/

theorem exists_first {p : ι → Prop} {labels : List ι} (h : ∃ x ∈ labels, p x) :
    ∃ before x after, labels = before ++ x :: after ∧ p x ∧ ∀ y ∈ before, ¬ p y := by
  classical
  induction labels with
  | nil => simp at h
  | cons x labels ih =>
    by_cases hx : p x
    · exact ⟨[], x, labels, rfl, hx, by simp⟩
    · obtain ⟨before, y, after, rfl, hy, hbefore⟩ := ih (by simpa [hx] using h)
      refine ⟨x :: before, y, after, rfl, hy, ?_⟩
      simpa [hx] using hbefore

theorem exists_last {p : ι → Prop} {labels : List ι} (h : ∃ x ∈ labels, p x) :
    ∃ before x after, labels = before ++ x :: after ∧ p x ∧ ∀ y ∈ after, ¬ p y := by
  have hreverse : ∃ x ∈ labels.reverse, p x := by simpa using h
  obtain ⟨after, x, before, hsplit, hx, hafter⟩ := exists_first hreverse
  refine ⟨before.reverse, x, after.reverse, ?_, hx, by simpa using hafter⟩
  rw [← List.reverse_reverse labels, hsplit]
  simp

/-! ## Runs -/

/-- A run of `step` from one state to another, with the labels emitted. -/
inductive Run (step : σ → List ι → σ → Prop) : σ → List ι → σ → Prop where
  | refl {a} : Run step a [] a
  | tail {a b c labels labels'} (run : Run step a labels b) (last : step b labels' c) :
      Run step a (labels ++ labels') c

namespace Run

variable {step step' : σ → List ι → σ → Prop} {a b c : σ} {labels labels' : List ι}

theorem single (h : step a labels b) : Run step a labels b := by
  simpa using Run.tail Run.refl h

theorem trans (hab : Run step a labels b) (hbc : Run step b labels' c) :
    Run step a (labels ++ labels') c := by
  induction hbc with
  | refl => simpa using hab
  | tail _ last ih => simpa [List.append_assoc] using Run.tail ih last

/-- Prepend a step. -/
theorem head (first : step a labels b) (run : Run step b labels' c) :
    Run step a (labels ++ labels') c :=
  trans (single first) run

theorem invariant {I : σ → Prop} (h : ∀ {a labels b}, step a labels b → I a → I b)
    (run : Run step a labels b) (ha : I a) : I b := by
  induction run with
  | refl => exact ha
  | tail _ last ih => exact h last ih

/-- An invariant of the steps that emit only good labels. -/
theorem invariant_of_labels {I : σ → Prop} {good : ι → Prop}
    (h : ∀ {a labels b}, step a labels b → (∀ x ∈ labels, good x) → I a → I b)
    (run : Run step a labels b) (hgood : ∀ x ∈ labels, good x) (ha : I a) : I b := by
  induction run with
  | refl => exact ha
  | tail _ last ih =>
    have hlast := fun x hx => hgood x (List.mem_append_right _ hx)
    exact h last hlast (ih fun x hx => hgood x (List.mem_append_left _ hx))

/-- The step that emitted a label, with the runs before and after it. -/
theorem at_label {before after : List ι} {x : ι} (run : Run step a labels c)
    (h : labels = before ++ x :: after) :
    ∃ s s' first inner inner' last, Run step a first s ∧ step s (inner ++ x :: inner') s' ∧
      Run step s' last c ∧ before = first ++ inner ∧ after = inner' ++ last := by
  induction run generalizing before after with
  | refl => simp at h
  | @tail s' c labels labels' run step ih =>
    -- either the label is among those of the last step, or the run before it emitted it
    rcases List.append_eq_append_iff.mp h with ⟨inner, rfl, h'⟩ | ⟨rest, hrest, h'⟩
    · exact ⟨s', c, labels, inner, after, [], run, h' ▸ step, Run.refl, rfl, by simp⟩
    · cases rest with
      | nil =>
        simp only [List.append_nil, List.nil_append] at hrest h'
        subst hrest
        exact ⟨s', c, _, [], after, [], run, by simpa [← h'] using step, Run.refl, by simp,
          by simp⟩
      | cons y rest =>
        obtain ⟨rfl, rfl⟩ : y = x ∧ rest ++ labels' = after := by
          simpa [eq_comm] using h'
        obtain ⟨t, t', first, inner, inner', last, hfirst, hstep, hlast, hbefore, hafter⟩ :=
          ih hrest
        exact ⟨t, t', first, inner, inner', last ++ labels', hfirst, hstep,
          Run.tail hlast step, hbefore, by simp [hafter]⟩

end Run

end AtlasDb.Lib
