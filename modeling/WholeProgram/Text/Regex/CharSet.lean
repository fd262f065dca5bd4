import WholeProgram.Text.CaseFold
import WholeProgram.Text.Category
import WholeProgram.Text.Script

/-!
# Sets of characters

A set is given by ranges of code points in increasing order, with a gap between any two. Every operation
gives such ranges again.

Sets have names: the general categories, the groups of categories and the scripts of the Unicode standard,
and a few sets that are named for what they hold. Names are looked up without regard to case, blanks,
hyphens and underscores.
-/

namespace WholeProgram.Text

/-- A set of characters, by ranges of code points. -/
structure CharSet where
  ranges : List (Nat × Nat)
deriving DecidableEq, Repr

namespace CharSet

/-- The greatest code point. -/
def maxCode : Nat := 0x10FFFF

/-- Joins ranges that overlap or touch; they are sorted by their beginnings. -/
def join : List (Nat × Nat) → List (Nat × Nat)
  | [] => []
  | r :: rest =>
    match join rest with
    | [] => [r]
    | s :: more => if s.1 ≤ r.2 + 1 then (r.1, max r.2 s.2) :: more else r :: s :: more

/-- The set of the characters in any of some ranges. -/
def ofRanges (ranges : List (Nat × Nat)) : CharSet := ⟨join (ranges.mergeSort fun a b => a.1 ≤ b.1)⟩

def single (c : Nat) : CharSet := ⟨[(c, c)]⟩

def union (a b : CharSet) : CharSet := ofRanges (a.ranges ++ b.ranges)

/-- The ranges between ranges, from a code point on. -/
def gaps : Nat → List (Nat × Nat) → List (Nat × Nat)
  | start, [] => if start ≤ maxCode then [(start, maxCode)] else []
  | start, r :: rest => if start < r.1 then (start, r.1 - 1) :: gaps (r.2 + 1) rest else gaps (r.2 + 1) rest

def complement (s : CharSet) : CharSet := ⟨gaps 0 s.ranges⟩

def holds (s : CharSet) (c : Nat) : Bool := s.ranges.any fun r => r.1 ≤ c && c ≤ r.2

def contains (s : CharSet) (c : Char) : Bool := s.holds c.toNat

/-- The characters that are the same letter as one of the set. -/
def folded (s : CharSet) : CharSet :=
  let touched := foldPairs.filterMap fun p => if s.holds p.1 || s.holds p.2 then some p.2 else none
  let letters := foldPairs.flatMap fun p => if touched.contains p.2 then [(p.1, p.1), (p.2, p.2)] else []
  ofRanges (s.ranges ++ letters)

def digit : CharSet := ⟨[(0x30, 0x39)]⟩

def word : CharSet := ⟨[(0x30, 0x39), (0x41, 0x5A), (0x5F, 0x5F), (0x61, 0x7A)]⟩

def space : CharSet := ⟨[(0x09, 0x0A), (0x0C, 0x0D), (0x20, 0x20)]⟩

def newline : CharSet := single 0x0A

/-- All characters. -/
def full : CharSet := ⟨[(0, maxCode)]⟩

end CharSet

/-! ## Sets by name -/

namespace Category

/-- The ranges of a run. -/
def runRanges (run : Nat × Nat × Nat) : List (Nat × Nat) :=
  if run.2.2 = 1 then [(run.1, run.2.1)]
  else (List.range ((run.2.1 - run.1) / run.2.2 + 1)).map fun k => (run.1 + k * run.2.2, run.1 + k * run.2.2)

/-- The ranges of the categories with one of some names. -/
def rangesOf (names : List String) : List (Nat × Nat) :=
  (named.filter fun c => c.1.any names.contains).flatMap fun c => c.2.flatMap runRanges

end Category

namespace CharSet

/-- The characters that the standard has assigned. -/
def assigned : CharSet := ofRanges (Category.named.flatMap fun c => c.2.flatMap Category.runRanges)

/-- The characters that the standard has not assigned. -/
def unassigned : CharSet := assigned.complement

/-- A name as it is looked up. -/
def lookupName (name : String) : String :=
  String.ofList ((name.toList.filter fun c => c != '_' && c != '-' && c != ' ').map Char.toLower)

/-- The set with a name, in the form in which it is looked up. -/
def ofLookupName? (name : String) : Option CharSet :=
  if name == "any" then some full
  else if name == "assigned" then some assigned
  else if name == "ascii" then some ⟨[(0, 0x7F)]⟩
  else if name == "cn" || name == "unassigned" then some unassigned
  else if name == "c" || name == "other" then
    some ((ofRanges (Category.rangesOf ["cc", "cf", "co", "cs"])).union unassigned)
  else
    match Category.named.find? (·.1.contains name), Category.groups.find? (·.1.contains name), scripts.lookup name with
    | some c, _, _ => some (ofRanges (c.2.flatMap Category.runRanges))
    | none, some g, _ => some (ofRanges (Category.rangesOf g.2))
    | none, none, some ranges => some (ofRanges ranges)
    | none, none, none => none

/-- The set with a name takes in the letters of the other case where case does not count. The cased letters
are the set that does not: they are taken as they are. -/
def isFoldable (name : String) : Bool := !(["lc", "casedletter"].contains (lookupName name))

/-- The set with a name. -/
def ofName? (name : String) : Option CharSet := ofLookupName? (lookupName name)

end CharSet

end WholeProgram.Text
