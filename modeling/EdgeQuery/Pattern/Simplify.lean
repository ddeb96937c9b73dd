import EdgeQuery.Pattern.Syntax
/-! # Simplified patterns and literal prefixes

Simplification rewrites counted repetitions into the other operators: `x{0}` is the empty
match, `x{0,}` is `x*`, `x{1,}` is `x+`, `x{3,}` is `xxx+`, `x{1}` is `x`, and `x{2,4}` is
`xx(x(x)?)?`. A repetition of the empty match is the empty match, and `x**` is `x*`.
The result matches the same texts.

`Regex.literalPrefix` reads a literal text off a simplified pattern, for a plan to narrow a
scan by: the whole pattern when it is one case-sensitive literal (then the pattern matches
that text only), and otherwise the case-sensitive literal that a top-level concatenation
starts with, once the leading anchors and empty matches are passed. -/

namespace EdgeQuery.Pattern

namespace Regex

/-- A star, plus or question mark over a simplified node, folding away repetitions that
add nothing. -/
def repeatOf (mk : Bool → Regex → Regex) (isSame : Regex → Option Bool) (lazy : Bool)
    (sub : Regex) : Regex :=
  match sub with
  | emptyMatch => emptyMatch
  | _ => if isSame sub == some lazy then sub else mk lazy sub

/-- Whether a node is a star, and if so whether it is lazy. -/
def starLaziness : Regex → Option Bool
  | star l _ => some l
  | _ => none

/-- Whether a node is a plus, and if so whether it is lazy. -/
def plusLaziness : Regex → Option Bool
  | plus l _ => some l
  | _ => none

/-- Whether a node is a question mark, and if so whether it is lazy. -/
def questLaziness : Regex → Option Bool
  | quest l _ => some l
  | _ => none

/-- `sub*`, simplified. -/
def starOf (lazy : Bool) (sub : Regex) : Regex := repeatOf star starLaziness lazy sub

/-- `sub+`, simplified. -/
def plusOf (lazy : Bool) (sub : Regex) : Regex := repeatOf plus plusLaziness lazy sub

/-- `sub?`, simplified. -/
def questOf (lazy : Bool) (sub : Regex) : Regex := repeatOf quest questLaziness lazy sub

/-- `sub{min,max}` over a simplified `sub`, written with the other operators. -/
def counted (min max : Int) (lazy : Bool) (sub : Regex) : Regex :=
  if min == 0 && max == 0 then emptyMatch
  else if max == -1 then
    if min == 0 then starOf lazy sub
    else if min == 1 then plusOf lazy sub
    else concat (List.replicate (min.toNat - 1) sub ++ [plusOf lazy sub])
  else if min == 1 && max == 1 then sub
  else
    let lead := if min > 0 then some (List.replicate min.toNat sub) else none
    let tail : Option Regex :=
      if max > min then
        some ((List.range (max - min - 1).toNat).foldl
          (fun acc _ => questOf lazy (concat [sub, acc])) (questOf lazy sub))
      else none
    match lead, tail with
    | some xs, some t => concat (xs ++ [t])
    | some xs, none => concat xs
    | none, some t => t
    | none, none => noMatch

mutual

/-- Simplifies a pattern. -/
def simplify : Regex → Regex
  | capture i n sub => capture i n (simplify sub)
  | concat subs => concat (simplifyAll subs)
  | alternate subs => alternate (simplifyAll subs)
  | star l sub => starOf l (simplify sub)
  | plus l sub => plusOf l (simplify sub)
  | quest l sub => questOf l (simplify sub)
  | rep min max l sub =>
    if min == 0 && max == 0 then emptyMatch else counted min max l (simplify sub)
  | re => re

/-- Simplifies each of a list of patterns. -/
def simplifyAll : List Regex → List Regex
  | [] => []
  | r :: rs => simplify r :: simplifyAll rs

end

/-- The pattern under the groups that wrap it whole. -/
def unwrapGroups : Regex → Regex
  | capture _ _ sub => unwrapGroups sub
  | re => re

/-- The case-sensitive literal a concatenation starts with, after its leading anchors and
empty matches. -/
def leadingLiteral : List Regex → Option (List Nat)
  | [] => none
  | beginText :: rest | beginLine :: rest | emptyMatch :: rest => leadingLiteral rest
  | literal r f :: _ => if f.foldCase then none else some r
  | _ :: _ => none

/-- The literal text of a simplified pattern (see the module comment), and whether the
pattern matches exactly that text. -/
def literalPrefix (re : Regex) : List Nat × Bool :=
  match unwrapGroups re with
  | literal r f => if f.foldCase then ([], false) else (r, true)
  | concat subs => ((leadingLiteral subs).getD [], false)
  | _ => ([], false)

end Regex

end EdgeQuery.Pattern
