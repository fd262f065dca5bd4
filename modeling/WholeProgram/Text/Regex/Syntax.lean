import WholeProgram.Text.Regex.CharSet

/-!
# Regular expressions

The expressions that configuration files use to name packages, classes and methods: literal text, sets of
characters, sequences, alternatives, repetitions, and assertions about the place in the text. Expressions
are limited in depth and in the size of the program that they stand for.
-/

namespace WholeProgram.Text

/-- What an expression may demand of the place it is at. -/
inductive Assertion where
  | textStart
  | textEnd
  | lineStart
  | lineEnd
  | wordBoundary
  | noWordBoundary
deriving DecidableEq, Repr

/-- A regular expression. A repetition can prefer few over many, which does not change what it
matches. -/
inductive Regex where
  | empty
  /-- Text by code points; with `fold`, letters count in either case. -/
  | literal (text : List Nat) (fold : Bool)
  | chars (s : CharSet)
  | anyButNewline
  | any
  | assert (a : Assertion)
  | capture (a : Regex)
  | star (a : Regex) (few : Bool)
  | plus (a : Regex) (few : Bool)
  | opt (a : Regex) (few : Bool)
  /-- At least `min` and at most `max` times. -/
  | counted (a : Regex) (min : Nat) (max : Option Nat) (few : Bool)
  | seq (parts : List Regex)
  | alt (choices : List Regex)
deriving BEq, Inhabited

namespace Regex

/-! ## Limits -/

/-- The largest count of a repetition. -/
def maxCount : Nat := 1000

/-- The greatest depth of an expression. -/
def maxHeight : Nat := 1000

/-- The greatest number of instructions of an expression. -/
def maxSize : Nat := 3355443

/-- The greatest number of bounds of ranges and characters of literal text. -/
def maxRunes : Nat := 33554432

mutual

/-- The counts of nested repetitions multiply to at most `n`. -/
def countsWithin : Regex → Nat → Bool
  | capture a, n | star a _, n | plus a _, n | opt a _, n => countsWithin a n
  | counted a min max _, n =>
    let m := max.getD min
    if max = some 0 then true
    else if n < m then false
    else countsWithin a (if m = 0 then n else n / m)
  | seq parts, n | alt parts, n => allCountsWithin parts n
  | empty, _ | literal _ _, _ | chars _, _ | anyButNewline, _ | any, _ | assert _, _ => true

def allCountsWithin : List Regex → Nat → Bool
  | [], _ => true
  | a :: rest, n => countsWithin a n && allCountsWithin rest n

end

/-- The number of instructions of an expression without parts. -/
def leafSize : Regex → Nat
  | literal text _ => max 1 text.length
  | _ => 1

/-- The number of bounds of ranges and characters of literal text at the top of an expression. -/
def runes : Regex → Nat
  | literal text _ => text.length
  | chars s => 2 * s.ranges.length
  | _ => 0

/-! ## Alternatives that are sets -/

/-- The set of characters that an expression for one character stands for. -/
def asSet? : Regex → Option CharSet
  | literal [c] fold => some (if fold then (CharSet.single c).folded else CharSet.single c)
  | chars s => some s
  | anyButNewline => some CharSet.newline.complement
  | any => some CharSet.full
  | _ => none

/-- The expression for a set of characters. -/
def ofSet (s : CharSet) : Regex :=
  if s == CharSet.full then any
  else if s == CharSet.newline.complement then anyButNewline
  else chars s

end Regex

end WholeProgram.Text
