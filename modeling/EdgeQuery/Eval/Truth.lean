/-! # Truth values of filter terms

Filter terms are evaluated in a three-valued logic, with a fourth value for terms over a
field whose values are missing and could not be supplied: such a term is *assumed* to
hold. `assumed` is its own negation, so `A != 'x'` and `!(A == 'x')` agree on an
unresolved `A`; `unknown` (a comparison that cannot be made) is also its own negation.

A conjunction is false as soon as one term is false; otherwise it is unknown if a term is
unknown, assumed if a term is assumed, and true. A disjunction is true as soon as one term
is true; otherwise it is assumed if a term is assumed, unknown if a term is unknown, and
false. A record matches when its filter is true or assumed. -/

namespace EdgeQuery.Eval

/-- The value of a filter term. -/
inductive Truth where
  | unknown
  | no
  | yes
  /-- Satisfied by assumption: the term is over a field that could not be resolved. -/
  | assumed
  deriving DecidableEq, Inhabited, Repr

namespace Truth

/-- Every truth value, in order. -/
def all : List Truth := [unknown, no, yes, assumed]

/-- The name of a truth value. -/
def name : Truth → String
  | unknown => "unknown"
  | no => "false"
  | yes => "true"
  | assumed => "assumed"

/-- The truth value of a boolean. -/
def ofBool (b : Bool) : Truth := if b then yes else no

/-- Negation: true and false swap, the other two stay. -/
def not : Truth → Truth
  | yes => no
  | no => yes
  | t => t

/-- Whether a term counts as satisfied. -/
def holds : Truth → Bool
  | yes | assumed => true
  | _ => false

/-- The value of a conjunction so far (`acc`) after one more term that is not false. -/
def andStep (acc : Truth) : Truth → Truth
  | unknown => unknown
  | assumed => if acc = yes then assumed else acc
  | _ => acc

/-- The value of a disjunction so far (`acc`) after one more term that is not true. -/
def orStep (acc : Truth) : Truth → Truth
  | assumed => assumed
  | unknown => if acc = no then unknown else acc
  | _ => acc

@[simp] theorem not_not (t : Truth) : t.not.not = t := by cases t <;> rfl

@[simp] theorem not_ofBool (b : Bool) : (ofBool b).not = ofBool (!b) := by cases b <;> rfl

end Truth

end EdgeQuery.Eval
