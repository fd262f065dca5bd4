import Std.Data.HashSet
import WholeProgram.Text.Regex.Parser

/-!
# Matching regular expressions

An expression is compiled to a program of small instructions; a match walks the text once and keeps the
instructions that may come next.
-/

namespace WholeProgram.Text

/-- Instructions, each with where to go on. -/
inductive Inst where
  | char (s : CharSet) (next : Nat)
  | split (a b : Nat)
  | assert (a : Assertion) (next : Nat)
  | accept

/-- The program of an expression. -/
structure Pattern where
  code : Array Inst
  start : Nat

/-! ## Compilation -/

namespace Regex

/-- The set that one character of literal text stands for. -/
def charSet (fold : Bool) (c : Nat) : CharSet :=
  if fold then (CharSet.single c).folded else CharSet.single c

/-- Puts an instruction at the end of a program. Returns where it is. -/
def append (code : Array Inst) (i : Inst) : Array Inst × Nat :=
  let place := code.size
  (code.push i, place)

/-- A program that is done again and again before it goes on at `next`. Returns where it starts, and where
it may also be left out. -/
def emitLoop (body : Nat → Array Inst → Array Inst × Nat) (next : Nat) (code : Array Inst) :
    Array Inst × Nat × Nat :=
  let loop := code.size
  let (code, x) := body loop (code.push .accept)
  (code.setIfInBounds loop (.split x next), x, loop)

/-- A program that is done `n` times before it goes on at `next`. -/
def emitTimes (body : Nat → Array Inst → Array Inst × Nat) : Nat → Nat → Array Inst → Array Inst × Nat
  | 0, next, code => (code, next)
  | n + 1, next, code =>
    let (code, start) := body next code
    emitTimes body n start code

/-- A program that is done up to `n` times before it goes on at `next`; `last` is where the times that
are done go on. -/
def emitUpTo (body : Nat → Array Inst → Array Inst × Nat) (next : Nat) :
    Nat → Nat → Array Inst → Array Inst × Nat
  | 0, last, code => (code, last)
  | n + 1, last, code =>
    let (code, x) := body last code
    emitUpTo body next n code.size (code.push (.split x next))

mutual

/-- Puts the program of an expression at the end of `code`; it goes on at `next`. Returns where it
starts. -/
def emit : Regex → Nat → Array Inst → Array Inst × Nat
  | empty, next, code => (code, next)
  | literal text fold, next, code =>
    text.reverse.foldl (fun (code, next) c => append code (.char (charSet fold c) next)) (code, next)
  | chars s, next, code => append code (.char s next)
  | anyButNewline, next, code => append code (.char CharSet.newline.complement next)
  | any, next, code => append code (.char CharSet.full next)
  | assert a, next, code => append code (.assert a next)
  | capture a, next, code => emit a next code
  | opt a _, next, code =>
    let (code, x) := emit a next code
    append code (.split x next)
  | star a _, next, code =>
    let (code, _, loop) := emitLoop (emit a) next code
    (code, loop)
  | plus a _, next, code =>
    let (code, once, _) := emitLoop (emit a) next code
    (code, once)
  | counted a min (some max) _, next, code =>
    let (code, start) := emitUpTo (emit a) next (max - min) next code
    emitTimes (emit a) min start code
  | counted a min none _, next, code =>
    let (code, once, loop) := emitLoop (emit a) next code
    emitTimes (emit a) (min - 1) (if min = 0 then loop else once) code
  | seq parts, next, code => emitSeq parts next code
  | alt choices, next, code => emitAlt choices next code

def emitSeq : List Regex → Nat → Array Inst → Array Inst × Nat
  | [], next, code => (code, next)
  | a :: rest, next, code =>
    let (code, start) := emitSeq rest next code
    emit a start code

def emitAlt : List Regex → Nat → Array Inst → Array Inst × Nat
  | [], next, code => (code, next)
  | [a], next, code => emit a next code
  | a :: rest, next, code =>
    let (code, y) := emitAlt rest next code
    let (code, x) := emit a next code
    append code (.split x y)

end

/-- The program of an expression. -/
def compile (r : Regex) : Pattern :=
  let (code, start) := emit r 0 #[.accept]
  { code, start }

end Regex

/-! ## Matching -/

/-- An assertion holds between two characters; none stands for the ends of the text. -/
def Assertion.holds (a : Assertion) (before after : Option Char) : Bool :=
  let isWord (c : Option Char) : Bool := (c.map CharSet.word.contains).getD false
  match a with
  | .textStart => before.isNone
  | .textEnd => after.isNone
  | .lineStart => before.isNone || before == some '\n'
  | .lineEnd => after.isNone || after == some '\n'
  | .wordBoundary => isWord before != isWord after
  | .noWordBoundary => isWord before == isWord after

namespace Pattern

/-- The expression that a text stands for, compiled. -/
def parse? (text : String) : Option Pattern := (Regex.parse? text).map Regex.compile

/-- What is reached without reading a character: the instructions that read one, and whether the program
can accept. -/
def closure (code : Array Inst) (before after : Option Char) :
    Nat → List Nat → Std.HashSet Nat → List (CharSet × Nat) → Bool → List (CharSet × Nat) × Bool
  | 0, _, _, reading, accepted => (reading, accepted)
  | _, [], _, reading, accepted => (reading, accepted)
  | fuel + 1, pc :: work, seen, reading, accepted =>
    if seen.contains pc then closure code before after fuel work seen reading accepted
    else
      let seen := seen.insert pc
      match code[pc]? with
      | some (.char s n) => closure code before after fuel work seen ((s, n) :: reading) accepted
      | some (.split a b) => closure code before after fuel (a :: b :: work) seen reading accepted
      | some (.assert a n) =>
        closure code before after fuel (if a.holds before after then n :: work else work) seen reading accepted
      | some .accept => closure code before after fuel work seen reading true
      | none => closure code before after fuel work seen reading accepted

/-- Walks the text; a match may start at every place. -/
def search (p : Pattern) : List Char → Option Char → List Nat → Bool
  | cs, before, starts =>
    -- Each instruction is done once and gives at most two more.
    let bound := 2 * p.code.size + starts.length + 2
    let (reading, accepted) := closure p.code before cs.head? bound (p.start :: starts) ∅ [] false
    match cs with
    | [] => accepted
    | c :: rest =>
      accepted || search p rest (some c) (reading.filterMap fun (s, n) => if s.contains c then some n else none)

/-- The expression matches somewhere in the text. -/
def isMatch (p : Pattern) (text : String) : Bool := search p text.toList none []

end Pattern

end WholeProgram.Text
