import Mathlib.Data.List.Basic

/-!
# Three-valued logic

The logic of SQL conditions. A demand (`Need`) on a truth value is to be true, to be false, or only
not to be the one or the other; demands go through the connectives as in two-valued logic
(`Need.and_split`, `Need.or_split`), so a formula meets a demand exactly when one of its branches of
literals does.
-/

namespace AtlasDb.Lib

inductive Truth where
  | true
  | false
  | unknown
deriving DecidableEq

variable {a b : Truth}

namespace Truth

def ofBool : Bool → Truth
  | .true => true
  | .false => false

def not : Truth → Truth
  | true => false
  | false => true
  | unknown => unknown

def and : Truth → Truth → Truth
  | false, _ => false
  | _, false => false
  | true, b => b
  | unknown, _ => unknown

def or : Truth → Truth → Truth
  | true, _ => true
  | _, true => true
  | false, b => b
  | unknown, _ => unknown

@[simp] theorem and_true (a : Truth) : a.and true = a := by cases a <;> rfl

@[simp] theorem or_false (a : Truth) : a.or false = a := by cases a <;> rfl

@[simp] theorem true_and (a : Truth) : true.and a = a := by cases a <;> rfl

@[simp] theorem false_or (a : Truth) : false.or a = a := by cases a <;> rfl

theorem and_assoc (a b c : Truth) : (a.and b).and c = a.and (b.and c) := by
  cases a <;> cases b <;> cases c <;> rfl

theorem or_assoc (a b c : Truth) : (a.or b).or c = a.or (b.or c) := by
  cases a <;> cases b <;> cases c <;> rfl

@[simp] theorem not_eq_false {a : Truth} : a.not = false ↔ a = true := by cases a <;> simp [not]

@[simp] theorem not_eq_true {a : Truth} : a.not = true ↔ a = false := by cases a <;> simp [not]

theorem and_eq_true : a.and b = true ↔ a = true ∧ b = true := by
  cases a <;> cases b <;> simp [and]

theorem and_eq_false : a.and b = false ↔ a = false ∨ b = false := by
  cases a <;> cases b <;> simp [and]

theorem or_eq_true : a.or b = true ↔ a = true ∨ b = true := by
  cases a <;> cases b <;> simp [or]

theorem or_eq_false : a.or b = false ↔ a = false ∧ b = false := by
  cases a <;> cases b <;> simp [or]

end Truth

/-! ## Demands -/

inductive Need where
  | isTrue
  | isFalse
  | notTrue
  | notFalse
deriving DecidableEq

namespace Need

def Meets : Need → Truth → Prop
  | isTrue, v => v = .true
  | isFalse, v => v = .false
  | notTrue, v => v ≠ .true
  | notFalse, v => v ≠ .false

instance (n : Need) (v : Truth) : Decidable (n.Meets v) := by
  cases n <;> unfold Meets <;> infer_instance

/-- The demand on the operand of a negation. -/
def flip : Need → Need
  | isTrue => isFalse
  | isFalse => isTrue
  | notTrue => notFalse
  | notFalse => notTrue

/-- The demand speaks against the formula. -/
def negated : Need → Bool
  | isTrue => false
  | isFalse => true
  | notTrue => true
  | notFalse => false

/-- The demand excludes an unknown value. -/
def strong : Need → Bool
  | isTrue => true
  | isFalse => true
  | notTrue => false
  | notFalse => false

@[simp] theorem negated_flip (n : Need) : n.flip.negated = !n.negated := by cases n <;> rfl

theorem meets_not {n : Need} {v : Truth} (h : n.Meets v.not) : n.flip.Meets v := by
  cases n <;> cases v <;> simp_all [Meets, flip, Truth.not]

/-- For a conjunction: of both operands if the demand speaks for it, else of one of them. -/
theorem and_split {n : Need} (h : n.Meets (a.and b)) :
    if n.negated then n.Meets a ∨ n.Meets b else n.Meets a ∧ n.Meets b := by
  cases n <;> cases a <;> cases b <;> simp_all [Meets, negated, Truth.and]

theorem or_split {n : Need} (h : n.Meets (a.or b)) :
    if n.negated then n.Meets a ∧ n.Meets b else n.Meets a ∨ n.Meets b := by
  cases n <;> cases a <;> cases b <;> simp_all [Meets, negated, Truth.or]

end Need

end AtlasDb.Lib
