/-! # Reports of failures

Every failure the library reports has a text, the causes it carries and, for a query that
does not read, the position where reading stopped. A failure deep inside an operation is
passed outwards with context added in front of its text ("compile: ...") and its causes
kept, so a report lists its causes from the outermost in.

The causes are the kinds of failure that callers tell apart: a query that does not read
(and why), a tree that lacks a child, a comparison that cannot be evaluated, a plan that
breaks a limit, a stage that cannot be built, a key or token that does not decode. -/

namespace EdgeQuery

/-- The kinds of failure that callers tell apart. -/
inductive Cause where
  /-- A query text does not read; one of the reading causes below says why. -/
  | badQuery
  | unterminatedString
  | invalidEscape
  | invalidNumber
  | unexpectedChar
  | emptyQuery
  | unmatchedParen
  | unexpectedToken
  | unexpectedEnd
  /-- Tree surgery found no such child, or was given no node. -/
  | childNotFound
  | nilNode
  /-- A disjunctive normal form would have too many branches. -/
  | tooManyBranches
  /-- A query reads but cannot be evaluated. -/
  | unknownFunction
  | invalidArguments
  | malformedComparison
  | invalidPattern
  /-- Planning. -/
  | invariant
  | termLimit
  | noSourceBinding
  | checkpointNotFound
  | invalidParams
  /-- A filter stage cannot be built; one of the stage causes below says why. -/
  | stage
  | unknownStage
  | stageOption
  | malformedKey
  /-- Edges. -/
  | malformedEdge
  | scanLimit
  /-- Encoded data. -/
  | corrupt
  | invalidFields
  | headerTooSmall
  | signatureMismatch
  | typeMismatch
  | versionMismatch
  deriving DecidableEq, Repr

/-- A reported failure. -/
structure Report where
  /-- The full text. -/
  message : String
  /-- The causes, from the outermost in, each once. -/
  causes : List Cause := []
  /-- Where reading a query stopped, for a query that does not read. -/
  position : Option Nat := none
  deriving Repr

namespace Report

/-- A failure with a text and no cause of its own. -/
def plain (message : String) : Report := { message }

/-- Puts context in front of a failure's text. -/
def context (pre : String) (r : Report) : Report := { r with message := pre ++ r.message }

/-- A failure whose text starts with the text of `cause` and goes on with `detail`, as
when a cause is named and then explained. -/
def withCause (cause : Cause) (causeText : String) (detail : String) : Report :=
  { message := causeText ++ detail, causes := [cause] }

/-- Adds a cause in front of a failure's causes. -/
def under (c : Cause) (r : Report) : Report :=
  { r with causes := c :: r.causes.erase c }

/-- Adds causes after a failure's own causes, keeping each once. -/
def alsoCauses (r : Report) (cs : List Cause) : Report :=
  { r with causes := r.causes ++ cs.filter (· ∉ r.causes) }

end Report

end EdgeQuery
