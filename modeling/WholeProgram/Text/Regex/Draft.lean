import WholeProgram.Text.Regex.Syntax

/-!
# Expressions in the making

A draft is an expression that the parser still takes apart and puts together. It lies in a cell, which
remembers the size that was last measured there: measuring an expression trusts what the cells of its parts
remember, also when a part has changed since. A cell that is set free and used again still remembers the
size of what lay there before.
-/

namespace WholeProgram.Text

/-- The modes that `(?...)` switches. -/
structure Flags where
  foldCase : Bool := false
  multiLine : Bool := false
  dotNewline : Bool := false
  few : Bool := false
deriving DecidableEq, Repr

/-- What a cell remembers: the size that was last measured there, if any was. -/
abbrev Cell := Option Nat

/-- What is made of one expression. -/
inductive Wrapping where
  | capture
  | star (few : Bool)
  | plus (few : Bool)
  | opt (few : Bool)
  /-- At least `min` and at most `max` times. -/
  | counted (min : Nat) (max : Option Nat) (few : Bool)
deriving DecidableEq, Repr

namespace Wrapping

/-- The expression that is made. -/
def apply : Wrapping → Regex → Regex
  | capture, a => .capture a
  | star few, a => .star a few
  | plus few, a => .plus a few
  | opt few, a => .opt a few
  | counted min max few, a => .counted a min max few

/-- The number of instructions that are made of some. -/
def size : Wrapping → Nat → Nat
  | capture, n | star _, n => n + 2
  | plus _, n | opt _, n => n + 1
  | counted min none _, n => if min = 0 then n + 2 else min * n + 1
  | counted min (some m) _, n => max 1 (m * n + (m - min))

end Wrapping

/-- An expression in the making, in its cell. -/
inductive Draft where
  /-- An expression without parts, and the modes in which it was read. -/
  | leaf (cell : Cell) (flags : Flags) (r : Regex)
  | wrap (cell : Cell) (w : Wrapping) (a : Draft)
  | seq (cell : Cell) (parts : List Draft)
  | alt (cell : Cell) (choices : List Draft)
deriving Inhabited

namespace Draft

/-- What the cell of a draft remembers. -/
def cell : Draft → Cell
  | leaf c _ _ | wrap c _ _ | seq c _ | alt c _ => c

/-- A draft of nothing. -/
def nothing (c : Cell) : Draft := leaf c {} .empty

def isNothing : Draft → Bool
  | leaf _ _ .empty => true
  | _ => false

mutual

/-- The expression itself. -/
def regex : Draft → Regex
  | leaf _ _ r => r
  | wrap _ w a => w.apply (regex a)
  | seq _ parts => .seq (regexes parts)
  | alt _ choices => .alt (regexes choices)

def regexes : List Draft → List Regex
  | [] => []
  | a :: rest => regex a :: regexes rest

end

mutual

/-- The depth of an expression. -/
def height : Draft → Nat
  | leaf _ _ _ => 1
  | wrap _ _ a => height a + 1
  | seq _ parts | alt _ parts => greatestHeight parts + 1

def greatestHeight : List Draft → Nat
  | [] => 0
  | a :: rest => max (height a) (greatestHeight rest)

end

/-- The sizes that the cells of some drafts remember, in total. -/
def total (parts : List Draft) : Nat := parts.foldl (fun n a => n + a.cell.getD 0) 0

mutual

/-- Measures the size of an expression: the number of instructions that it stands for. With `anew`, what
its own cell remembers does not count. -/
def measure (anew : Bool) : Draft → Draft
  | leaf c f r => if anew || c.isNone then leaf (some r.leafSize) f r else leaf c f r
  | wrap c w a =>
    if anew || c.isNone then
      let a := measure false a
      wrap (some (w.size (a.cell.getD 0))) w a
    else wrap c w a
  | seq c parts =>
    if anew || c.isNone then
      let parts := measureAll parts
      seq (some (max 1 (total parts))) parts
    else seq c parts
  | alt c choices =>
    if anew || c.isNone then
      let choices := measureAll choices
      alt (some (max 1 (total choices + (choices.length - 1)))) choices
    else alt c choices

/-- Measures the parts that have not been measured. -/
def measureAll : List Draft → List Draft
  | [] => []
  | a :: rest => measure false a :: measureAll rest

end

/-- The number of bounds of ranges and characters of literal text at the top. -/
def runes : Draft → Nat
  | leaf _ _ r => r.runes
  | _ => 0

/-! ## Sets of characters -/

/-- The set of characters that an expression for one character stands for. -/
def asSet? : Draft → Option CharSet
  | leaf _ _ r => r.asSet?
  | _ => none

/-- The expression for its set, if it is a set. -/
def tidy : Draft → Draft
  | leaf c f (.chars s) => leaf c f (.ofSet s)
  | a => a

/-- One expression, in the cell of the first, for two that stand for one character each. Two equal ones stay
what they are if they were read in the same modes. -/
def joinSets (a b : Draft) : Draft :=
  match a, b with
  | leaf c f r, leaf _ g q =>
    if r == q && f == g then a
    else
      match r.asSet?, q.asSet? with
      | some s, some t => leaf c f (.ofSet (s.union t))
      | _, _ => a
  | _, _ => a

/-! ## Beginnings -/

/-- The literal text that an expression begins with. -/
def leadingText : Draft → List Nat × Bool
  | leaf _ _ (.literal text fold) => (text, fold)
  | seq _ (leaf _ _ (.literal text fold) :: _) => (text, fold)
  | _ => ([], false)

/-- The first part of an expression. -/
def leading? : Draft → Option Draft
  | seq c [] => some (seq c [])
  | seq _ (a :: _) => if a.isNothing then none else some a
  | a => if a.isNothing then none else some a

/-- A part that may be shared: one character, or a fixed number of them. -/
def isShareable : Draft → Bool
  | wrap _ (.counted min max _) a => max == some min && (asSet? a).isSome
  | a => (asSet? a).isSome

/-- Two parts that may be shared are the same. Whether letters count in either case is not looked at. -/
def isSamePart : Draft → Draft → Bool
  | leaf _ _ (.literal a _), leaf _ _ (.literal b _) => a == b
  | leaf _ _ a, leaf _ _ b => a == b
  | wrap _ v a, wrap _ w b => v == w && isSamePart a b
  | _, _ => false

end Draft

end WholeProgram.Text
