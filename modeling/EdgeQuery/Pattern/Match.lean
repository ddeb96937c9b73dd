import EdgeQuery.Pattern.Simplify
/-! # Matching patterns

A simplified pattern is compiled into a program of instructions, a Thompson automaton:
instructions that read one code point, splits, empty-width assertions, and the final
match. A text matches when some path through the program from its start, begun at any
position of the text, reaches the match instruction, reading code points in order and
passing only assertions that hold where they are met.

The set of live instructions is carried along the text, closed under splits and
assertions at each position, so matching takes time proportional to the length of the
text times the size of the program. -/

namespace EdgeQuery.Pattern

/-- The empty-width assertions. -/
inductive Assertion where
  | beginLine | endLine | beginText | endText | wordBoundary | noWordBoundary
  deriving DecidableEq, Inhabited

/-- An instruction of a compiled pattern; `next` is the instruction to go on with. -/
inductive Inst where
  /-- Reads a code point of the set. -/
  | rune (set : Ranges) (next : Nat)
  /-- Reads a code point equivalent to `c` under simple case folding. -/
  | foldRune (c : Nat) (next : Nat)
  /-- Reads any code point but a newline. -/
  | anyNotNL (next : Nat)
  /-- Reads any code point. -/
  | any (next : Nat)
  /-- Goes on with both instructions. -/
  | split (first second : Nat)
  /-- Goes on if the assertion holds here. -/
  | assert (cond : Assertion) (next : Nat)
  | success
  | fail
  deriving Inhabited

/-- A compiled pattern: its instructions and the first one. -/
structure Program where
  insts : Array Inst
  start : Nat
  deriving Inhabited

namespace Program

/-- Appends an instruction and gives its index. -/
def emit (prog : Array Inst) (i : Inst) : Array Inst × Nat := (prog.push i, prog.size)

mutual

/-- Compiles a node to go on with `next`; gives the entry instruction. -/
def compileNode : Regex → Nat → Array Inst → Array Inst × Nat
  | .noMatch, _, prog => emit prog .fail
  | .emptyMatch, next, prog => (prog, next)
  | .literal runes f, next, prog =>
    runes.foldr (fun c (acc : Array Inst × Nat) =>
      emit acc.1 (if f.foldCase then .foldRune c acc.2 else .rune [(c, c)] acc.2)) (prog, next)
  | .charClass r, next, prog => emit prog (.rune r next)
  | .anyCharNotNL, next, prog => emit prog (.anyNotNL next)
  | .anyChar, next, prog => emit prog (.any next)
  | .beginLine, next, prog => emit prog (.assert .beginLine next)
  | .endLine, next, prog => emit prog (.assert .endLine next)
  | .beginText, next, prog => emit prog (.assert .beginText next)
  | .endText _, next, prog => emit prog (.assert .endText next)
  | .wordBoundary, next, prog => emit prog (.assert .wordBoundary next)
  | .noWordBoundary, next, prog => emit prog (.assert .noWordBoundary next)
  | .capture _ _ sub, next, prog => compileNode sub next prog
  | .star _ sub, next, prog =>
    let (prog, loop) := emit prog .fail
    let (prog, body) := compileNode sub loop prog
    (prog.setIfInBounds loop (.split body next), loop)
  | .plus _ sub, next, prog =>
    let (prog, loop) := emit prog .fail
    let (prog, body) := compileNode sub loop prog
    (prog.setIfInBounds loop (.split body next), body)
  | .quest _ sub, next, prog =>
    let (prog, body) := compileNode sub next prog
    emit prog (.split body next)
  | .rep _ _ _ sub, next, prog =>
    -- counted repetitions are gone after simplification; read one as its body
    compileNode sub next prog
  | .concat subs, next, prog => compileSeq subs next prog
  | .alternate subs, next, prog => compileAlts subs next prog

/-- Compiles a sequence, last piece first. -/
def compileSeq : List Regex → Nat → Array Inst → Array Inst × Nat
  | [], next, prog => (prog, next)
  | r :: rs, next, prog =>
    let (prog, rest) := compileSeq rs next prog
    compileNode r rest prog

/-- Compiles alternatives, each going on with `next`, joined by splits. -/
def compileAlts : List Regex → Nat → Array Inst → Array Inst × Nat
  | [], _, prog => emit prog .fail
  | [r], next, prog => compileNode r next prog
  | r :: rs, next, prog =>
    let (prog, first) := compileNode r next prog
    let (prog, rest) := compileAlts rs next prog
    emit prog (.split first rest)

end

end Program

/-- Compiles a pattern, simplifying it first. -/
def Regex.compile (re : Regex) : Program :=
  let (insts, start) := Program.compileNode re.simplify 0 #[.success]
  ⟨insts, start⟩

/-- Whether a code point is an ASCII word character. -/
def isWordRune (c : Nat) : Bool :=
  (0x30 ≤ c && c ≤ 0x39) || (0x41 ≤ c && c ≤ 0x5A) || (0x61 ≤ c && c ≤ 0x7A) || c == 0x5F

/-- Whether an assertion holds between the code points `before` and `after` (none at the
ends of the text). -/
def Assertion.holds (a : Assertion) (before after : Option Nat) : Bool :=
  match a with
  | .beginLine => before.isNone || before == some 10
  | .endLine => after.isNone || after == some 10
  | .beginText => before.isNone
  | .endText => after.isNone
  | .wordBoundary => (before.map isWordRune).getD false != (after.map isWordRune).getD false
  | .noWordBoundary => (before.map isWordRune).getD false == (after.map isWordRune).getD false

namespace Program

/-- The instructions reached from `todo` through splits and assertions that hold here,
added to `acc`; `seen` marks instructions already reached. Every instruction is taken
once, so `fuel` of twice the program size suffices. -/
def closure (p : Program) (before after : Option Nat) :
    Nat → List Nat → Array Bool → List Nat → List Nat × Array Bool
  | 0, _, seen, acc => (acc, seen)
  | _, [], seen, acc => (acc, seen)
  | fuel + 1, pc :: todo, seen, acc =>
    if seen[pc]?.getD true then p.closure before after fuel todo seen acc
    else
      let seen := seen.setIfInBounds pc true
      match p.insts[pc]? with
      | some (.split a b) => p.closure before after fuel (a :: b :: todo) seen acc
      | some (.assert cond next) =>
        if cond.holds before after then p.closure before after fuel (next :: todo) seen acc
        else p.closure before after fuel todo seen acc
      | some _ => p.closure before after fuel todo seen (pc :: acc)
      | none => p.closure before after fuel todo seen acc

/-- The instructions live after reading `c` from the threads `threads`. -/
def advance (p : Program) (threads : List Nat) (c : Nat) : List Nat :=
  threads.filterMap fun pc =>
    match p.insts[pc]? with
    | some (Inst.rune r next) => if r.contains c then some next else none
    | some (Inst.foldRune d next) => if (orbit d).contains c then some next else none
    | some (Inst.anyNotNL next) => if c != 10 then some next else none
    | some (Inst.any next) => some next
    | _ => none

/-- Whether a match ends at or after this position, given the threads carried to it,
the code point before it and the code points from it on. -/
def search (p : Program) : List Nat → Option Nat → List Nat → Bool
  | carried, before, rest =>
    let (threads, _) := p.closure before rest.head? (2 * p.insts.size + 2)
      (p.start :: carried) (Array.replicate p.insts.size false) []
    if threads.any (fun pc => match p.insts[pc]? with | some .success => true | _ => false)
    then true
    else
      match rest with
      | [] => false
      | c :: more => p.search (p.advance threads c) (some c) more
termination_by _ _ rest => rest.length

/-- Whether the pattern matches somewhere in the text. -/
def accepts (p : Program) (text : List Nat) : Bool := p.search [] none text

end Program

end EdgeQuery.Pattern
