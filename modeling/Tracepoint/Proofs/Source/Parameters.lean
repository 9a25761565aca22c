import Mathlib.Tactic.Common
import Tracepoint.Source.Naming

/-!
# Parameters of methods

A signature has the types of the parameters of a method or constructor. The type of a parameter
with dots is found among the children of the parameter, where a comment can stand in front of it
and be found instead.

Results:

* `spreadType?_eq`: what is found is the type if it is no comment.
-/

namespace Tracepoint.Source

open Java Text

namespace ParsedText

/-- The parameters of a method or constructor. -/
def parametersOf (declaration : Node) : List Node :=
  ((declaration.child? .parameters).map (·.children)).getD []

/-- What a signature takes for the type of a parameter with dots. -/
def spreadType? (parameter : Node) : Option Node :=
  parameter.children.find? fun c => c.kind ≠ .modifiers && c.kind ≠ .declarator

/-- The type of a parameter with dots, which a comment can stand in front of. -/
def declaredSpreadType? (parameter : Node) : Option Node :=
  parameter.children.find? fun c =>
    c.kind ≠ .modifiers && c.kind ≠ .declarator && c.kind ≠ .comment

variable (t : ParsedText)

/-- The types of the parameters of a method or constructor as its signature has them. -/
def typesInSignature (declaration : Node) : List String :=
  ((declaration.child? .parameters).map t.parameterTypes).getD []

theorem typesInSignature_eq_filterMap (declaration : Node) :
    t.typesInSignature declaration = (parametersOf declaration).filterMap t.parameterType? := by
  unfold typesInSignature parametersOf
  cases declaration.child? .parameters <;> rfl

/-- Behind a comment would be the type. -/
theorem spreadType?_eq {parameter : Node}
    (h : (spreadType? parameter).any (·.kind == .comment) = false) :
    spreadType? parameter = declaredSpreadType? parameter := by
  unfold spreadType? declaredSpreadType? at *
  revert h
  induction parameter.children with
  | nil => exact fun _ => rfl
  | cons c cs ih =>
    intro h
    rw [List.find?_cons] at h
    rw [List.find?_cons, List.find?_cons]
    cases hc : decide (c.kind ≠ .modifiers) && decide (c.kind ≠ .declarator) with
    | false =>
      rw [hc] at h
      simpa only [Bool.false_and] using ih h
    | true =>
      rw [hc] at h
      have hcomment : c.kind ≠ .comment := by simpa using h
      simp only [Bool.true_and, hcomment, ne_eq, not_false_eq_true, decide_true]

end ParsedText

end Tracepoint.Source
