import WholeProgram.Text.Regex.Draft

/-!
# The state of the parser

The parser keeps a stack of drafts and of the open groups and bars around the place. It counts the cells it
has taken, because the limits on depth and size only count once there are enough of them, and it keeps the
cells that are free to be used again.
-/

namespace WholeProgram.Text.Regex

/-- What stands on the stack of the parser. -/
inductive Item where
  | expr (d : Draft)
  /-- An open group, and the flags outside of it. -/
  | opening (outside : Flags) (captures : Bool)
  | bar

/-- The state of the parser. -/
structure Reading where
  flags : Flags := {}
  /-- The last item first. -/
  stack : List Item := []
  /-- The number of cells that have been taken. -/
  taken : Nat := 0
  /-- The cells that are free to be used again, the one set free last first. -/
  free : List Cell := []
  /-- The number of bounds of ranges and characters of literal text. -/
  runes : Nat := 0
  /-- The product of all counts of repetitions. -/
  repeats : Nat := 1
  /-- Sizes are being measured. -/
  sizing : Bool := false

/-- A step of the parser; it fails for a text that is no expression. -/
abbrev Parse := StateT Reading Option

/-- A cell to put a draft into: the one set free last, or a new one. -/
def take : Parse Cell := do
  let p ← get
  match p.free with
  | c :: free =>
    set { p with free }
    return c
  | [] =>
    set { p with taken := p.taken + 1 }
    return none

/-- Sets a cell free. -/
def release (c : Cell) : Parse Unit := modify fun p => { p with free := c :: p.free }

/-! ## Limits -/

/-- The product of the counts so far with those of an expression. -/
def countRepeats (repeats : Nat) : Draft → Nat
  | .wrap _ (.counted min max _) _ =>
    let n := Nat.max 1 (max.getD min)
    if maxSize / repeats < n then maxSize else repeats * n
  | _ => repeats

/-- The size that was measured is above the limit. -/
def isTooLarge (d : Draft) : Bool := maxSize < d.cell.getD 0

/-- Measures the expressions on the stack. -/
def Item.measure : Item → Item
  | .expr d => .expr (d.measure true)
  | i => i

def Item.isTooLarge : Item → Bool
  | .expr d => Regex.isTooLarge d
  | _ => false

/-- Decides whether sizes are to be measured from now on: the counts and cells so far could make an
expression that is too large. Then what is on the stack is measured at once. -/
def beginSizing (d : Draft) : Parse Unit := do
  let p ← get
  if !p.sizing then
    let repeats := countRepeats p.repeats d
    if p.taken < maxSize / repeats then set { p with repeats }
    else
      let stack := p.stack.map Item.measure
      set { p with repeats, sizing := true, stack }
      if stack.any Item.isTooLarge then failure

/-- Measures an expression if sizes count, and fails if it is above a limit. -/
def check (d : Draft) : Parse Draft := do
  if maxRunes < (← get).runes then failure
  beginSizing d
  let p ← get
  let d := if p.sizing then d.measure true else d
  if p.sizing && isTooLarge d then failure
  if maxHeight ≤ p.taken && maxHeight < d.height then failure
  return d

/-- Checks what is on top of the stack. -/
def checkTop : Parse Unit := do
  match (← get).stack with
  | .expr d :: _ =>
    let d ← check d
    modify fun p => { p with stack := .expr d :: p.stack.tail }
  | _ =>
    let _ ← check (.nothing none)

/-! ## The stack -/

/-- Joins the last two items if both are literal text of one kind. The cell of the last one is used for the
literal that comes next, if one is given, and set free otherwise. The result says whether the literal that
comes next has been put there. -/
def joinLiterals (next : Option (Flags × Regex)) : Parse Bool := do
  let p ← get
  match p.stack with
  | .expr (.leaf c _ (.literal a x)) :: .expr (.leaf d g (.literal b y)) :: rest =>
    if x == y then
      let joined : Item := .expr (.leaf d g (.literal (b ++ a) y))
      match next with
      | some (f, r) =>
        set { p with stack := .expr (.leaf c f r) :: joined :: rest }
        return true
      | none =>
        set { p with stack := joined :: rest, free := c :: p.free }
        return false
    else return false
  | _ => return false

/-- The character that a set of one character stands for, or of one letter in either case, and whether it is
such a letter. -/
def asLiteral? (s : CharSet) : Option (Nat × Bool) :=
  let isPair (a b : Nat) : Bool := (sameLetter a).length == 2 && (sameLetter a).contains b
  match s.ranges with
  | [(a, b)] =>
    if a == b then some (a, false)
    else if a + 1 == b && isPair a b then some (a, true)
    else none
  | [(a, b), (c, d)] => if a == b && c == d && isPair a c then some (a, true) else none
  | _ => none

def pushItem (i : Item) : Parse Unit := modify fun p => { p with stack := i :: p.stack }

/-- Puts an expression on the stack. -/
def push (d : Draft) : Parse Unit := do
  modify fun p => { p with runes := p.runes + d.runes }
  let short := match d with
    | .leaf _ _ (.chars s) => asLiteral? s
    | _ => none
  match short with
  | some (c, fold) =>
    let flags := { (← get).flags with foldCase := fold }
    if !(← joinLiterals (some (flags, .literal [c] fold))) then
      pushItem (.expr (.leaf d.cell flags (.literal [c] fold)))
      checkTop
  | none =>
    let _ ← joinLiterals none
    pushItem (.expr d)
    checkTop

/-- Puts an expression without parts on the stack. -/
def add (r : Regex) : Parse Unit := do
  let c ← take
  push (.leaf c (← get).flags r)

/-- Puts an item that is no expression on the stack. -/
def mark (i : Item) : Parse Unit := do
  let _ ← take
  let _ ← joinLiterals none
  pushItem i
  checkTop

end WholeProgram.Text.Regex
