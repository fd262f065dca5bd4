import WholeProgram.Text.Digits
import WholeProgram.Text.Regex.Factor
import WholeProgram.Text.Regex.CharSet

/-!
# Reading regular expressions

The expressions are those of the usual linear-time engines: no references to groups and no looking around.
`Regex.parse?` gives nothing for a text that is no expression.
-/

namespace WholeProgram.Text.Regex

/-! ## Characters and classes -/

/-- The class of a letter after a backslash, and whether what is outside of it is meant. -/
def letterClass? : Char → Option (CharSet × Bool)
  | 'd' => some (CharSet.digit, false)
  | 'D' => some (CharSet.digit, true)
  | 's' => some (CharSet.space, false)
  | 'S' => some (CharSet.space, true)
  | 'w' => some (CharSet.word, false)
  | 'W' => some (CharSet.word, true)
  | _ => none

/-- The classes that are named between `[:` and `:]`. -/
def namedClass? : String → Option CharSet
  | "alnum" => some ⟨[(0x30, 0x39), (0x41, 0x5A), (0x61, 0x7A)]⟩
  | "alpha" => some ⟨[(0x41, 0x5A), (0x61, 0x7A)]⟩
  | "ascii" => some ⟨[(0, 0x7F)]⟩
  | "blank" => some ⟨[(0x09, 0x09), (0x20, 0x20)]⟩
  | "cntrl" => some ⟨[(0, 0x1F), (0x7F, 0x7F)]⟩
  | "digit" => some CharSet.digit
  | "graph" => some ⟨[(0x21, 0x7E)]⟩
  | "lower" => some ⟨[(0x61, 0x7A)]⟩
  | "print" => some ⟨[(0x20, 0x7E)]⟩
  | "punct" => some ⟨[(0x21, 0x2F), (0x3A, 0x40), (0x5B, 0x60), (0x7B, 0x7E)]⟩
  | "space" => some ⟨[(0x09, 0x0D), (0x20, 0x20)]⟩
  | "upper" => some ⟨[(0x41, 0x5A)]⟩
  | "word" => some CharSet.word
  | "xdigit" => some ⟨[(0x30, 0x39), (0x41, 0x46), (0x61, 0x66)]⟩
  | _ => none

/-- The set that a class stands for. Letters are folded before what is outside of the class is taken. -/
def classSet (f : Flags) (s : CharSet) (negated : Bool) : CharSet :=
  let s := if f.foldCase then s.folded else s
  if negated then s.complement else s

def isOctal (c : Char) : Bool := '0' ≤ c && c ≤ '7'

/-- The hexadecimal digits up to a closing brace. -/
def bracedHex : List Char → Nat → Nat → Option (Nat × List Char)
  | [], _, _ => none
  | '}' :: rest, count, n => if count = 0 then none else some (n, rest)
  | c :: rest, count, n =>
    match digit? 16 c with
    | none => none
    | some d => if CharSet.maxCode < n * 16 + d then none else bracedHex rest (count + 1) (n * 16 + d)

/-- One character after a backslash, by its code point. -/
def escaped? : List Char → Option (Nat × List Char)
  | [] => none
  | 'x' :: '{' :: rest => bracedHex rest 0 0
  | 'x' :: a :: b :: rest =>
    match digit? 16 a, digit? 16 b with
    | some x, some y => some (x * 16 + y, rest)
    | _, _ => none
  | 'a' :: rest => some (7, rest)
  | 'f' :: rest => some (12, rest)
  | 'n' :: rest => some (10, rest)
  | 'r' :: rest => some (13, rest)
  | 't' :: rest => some (9, rest)
  | 'v' :: rest => some (11, rest)
  | c :: rest =>
    if isOctal c then
      let more := (rest.take 2).takeWhile isOctal
      if c ≠ '0' ∧ more.isEmpty = true then none
      else some (more.foldl (fun n d => n * 8 + (d.toNat - 0x30)) (c.toNat - 0x30), rest.drop more.length)
    else if c.toNat < 0x80 ∧ c.isAlphanum = false then some (c.toNat, rest)
    else none

/-- A set by its name after a backslash and one of the letters `p` and `P`: one letter, or a name in braces;
a caret before the name and the capital letter stand for what is outside of the set. The outer option says
whether the text has that form, the inner one whether there is such a set. -/
def unicodeClass? (f : Flags) (cs : List Char) : Option (Option (CharSet × List Char)) :=
  let set (outside : Bool) (name rest : List Char) : Option (CharSet × List Char) :=
    let (outside, name) := match name with
      | '^' :: name => (!outside, name)
      | _ => (outside, name)
    let name := String.ofList name
    (CharSet.ofName? name).map fun s =>
      (classSet { f with foldCase := f.foldCase && CharSet.isFoldable name } s outside, rest)
  let named (outside : Bool) (cs : List Char) : Option (CharSet × List Char) :=
    match cs with
    | [] => none
    | '{' :: rest =>
      let name := rest.takeWhile (· != '}')
      if name.length = rest.length then none else set outside name (rest.drop (name.length + 1))
    | c :: rest => set outside [c] rest
  match cs with
  | 'p' :: rest => some (named false rest)
  | 'P' :: rest => some (named true rest)
  | _ => none

/-- One character of a bracketed class. -/
def classChar? : List Char → Option (Nat × List Char)
  | [] => none
  | '\\' :: rest => escaped? rest
  | c :: rest => some (c.toNat, rest)

/-- A class `[:name:]` at the front, if the text has that form: its set, or none for a bad name. -/
def posixClass? (f : Flags) (cs : List Char) : Option (Option (CharSet × List Char)) :=
  match cs with
  | '[' :: ':' :: rest =>
    match (String.ofList rest).splitOn ":]" with
    | name :: _ :: _ =>
      let negated := name.startsWith "^"
      let set := namedClass? (if negated then (name.drop 1).toString else name)
      some (set.map fun s => (classSet f s negated, rest.drop (name.length + 2)))
    | _ => none
  | _ => none

/-- The members of a bracketed class up to its closing bracket. -/
def classBody (f : Flags) : Nat → Bool → List Char → List (Nat × Nat) → Option (CharSet × List Char)
  | 0, _, _, _ => none
  | fuel + 1, first, cs, ranges =>
    let add (s : CharSet) (rest : List Char) : Option (CharSet × List Char) :=
      classBody f fuel false rest (s.ranges ++ ranges)
    let range (lo hi : Nat) (rest : List Char) : Option (CharSet × List Char) :=
      if hi < lo then none else add (classSet f ⟨[(lo, hi)]⟩ false) rest
    let single (cs : List Char) : Option (CharSet × List Char) :=
      match classChar? cs with
      | none => none
      | some (lo, rest) =>
        match rest with
        | '-' :: c :: more =>
          if c = ']' then range lo lo rest
          else (classChar? (c :: more)).bind fun (hi, rest) => range lo hi rest
        | _ => range lo lo rest
    match cs with
    | [] => none
    | ']' :: rest => if first then single cs else some (CharSet.ofRanges ranges, rest)
    | '\\' :: c :: rest =>
      match unicodeClass? f (c :: rest), letterClass? c with
      | some named, _ => named.bind fun (s, rest) => add s rest
      | none, some (s, negated) => add (classSet f s negated) rest
      | none, none => single cs
    | _ =>
      match posixClass? f cs with
      | some (some (s, rest)) => add s rest
      | some none => none
      | none => single cs

/-! ## Counts, flags and names -/

/-- A count without a leading zero; a huge one counts as over every limit. -/
def count? (cs : List Char) : Option (Nat × List Char) :=
  let digits := cs.takeWhile Char.isDigit
  match digits with
  | [] => none
  | '0' :: _ :: _ => none
  | _ => some (digits.foldl (fun n d => n * 10 + (d.toNat - 0x30)) 0, cs.drop digits.length)

/-- The bounds between braces, after the opening one. -/
def bounds? (cs : List Char) : Option (Nat × Option Nat × List Char) :=
  match count? cs with
  | none => none
  | some (lo, '}' :: rest) => some (lo, some lo, rest)
  | some (lo, ',' :: '}' :: rest) => some (lo, none, rest)
  | some (lo, ',' :: rest) =>
    match count? rest with
    | some (hi, '}' :: rest) => some (lo, some hi, rest)
    | _ => none
  | some _ => none

/-- The flags before `:` or `)` of a group, after `(?`: the new flags, whether a group opens, the rest. -/
def flags? : Nat → List Char → Flags → Bool → Bool → Option (Flags × Bool × List Char)
  | 0, _, _, _, _ => none
  | _, [], _, _, _ => none
  | fuel + 1, c :: rest, f, negative, saw =>
    match c with
    | 'i' => flags? fuel rest { f with foldCase := !negative } negative true
    | 'm' => flags? fuel rest { f with multiLine := !negative } negative true
    | 's' => flags? fuel rest { f with dotNewline := !negative } negative true
    | 'U' => flags? fuel rest { f with few := !negative } negative true
    | '-' => if negative then none else flags? fuel rest f true false
    | ':' => if negative && !saw then none else some (f, true, rest)
    | ')' => if negative && !saw then none else some (f, false, rest)
    | _ => none

/-- The name of a named group, after `<`. -/
def groupName? (cs : List Char) : Option (String × List Char) :=
  let name := cs.takeWhile (· ≠ '>')
  match cs.drop name.length with
  | '>' :: rest =>
    if name.isEmpty || !name.all (fun c => c.isAlphanum || c == '_') then none
    else some (String.ofList name, rest)
  | _ => none

/-- Text that is quoted up to `\E`. -/
def quoted : List Char → List Char × List Char
  | [] => ([], [])
  | '\\' :: 'E' :: rest => ([], rest)
  | c :: rest => let (q, rest) := quoted rest; (c :: q, rest)

/-! ## Groups and repetitions -/

/-- The least code point of a letter. -/
def leastLetter (c : Nat) : Nat := (sameLetter c).foldl min c

def addLiteral (c : Nat) : Parse Unit := do
  let f := (← get).flags
  add (.literal [if f.foldCase then leastLetter c else c] f.foldCase)

/-- Takes the expressions above the last open group or bar, first one first. -/
def takeExprs : Parse (List Draft) := do
  let p ← get
  let top := p.stack.takeWhile fun i => i matches .expr _
  set { p with stack := p.stack.drop top.length }
  return top.reverse.filterMap fun
    | .expr d => some d
    | _ => none

/-- Makes a sequence of the expressions above the last open group or bar. -/
def closeSeq : Parse Unit := do
  let _ ← joinLiterals none
  match ← takeExprs with
  | [] => add .empty
  | parts => push (← sequence parts)

/-- Makes an alternative of the expressions above the last open group. -/
def closeAlt (fuel : Nat) : Parse Unit := do
  let choices ← takeExprs
  let choices := choices.dropLast ++ (choices.getLast?.map Draft.tidy).toList
  push (← alternative fuel choices)

/-- Moves the sequence above a bar below it; two characters become one set. The result says whether there
was a bar. -/
def passBar : Parse Bool := do
  let p ← get
  match p.stack with
  | .expr a :: .bar :: rest =>
    match rest with
    | .expr b :: more =>
      if b.asSet?.isSome && a.asSet?.isSome then
        set { p with stack := .bar :: .expr (b.joinSets a) :: more, free := a.cell :: p.free }
      else set { p with stack := .bar :: .expr a :: .expr b.tidy :: more }
    | _ => set { p with stack := .bar :: .expr a :: rest }
    return true
  | _ => return false

/-- Ends the sequence before a bar. -/
def readBar : Parse Unit := do
  closeSeq
  if !(← passBar) then mark .bar

/-- Ends the sequence and the alternative before the end of a group or of the text. -/
def closeGroup (fuel : Nat) : Parse Unit := do
  closeSeq
  if ← passBar then modify fun p => { p with stack := p.stack.tail }
  closeAlt fuel

/-- Ends a group. -/
def readClose (fuel : Nat) : Parse Unit := do
  closeGroup fuel
  let p ← get
  match p.stack with
  | .expr r :: .opening outside captures :: rest =>
    set { p with stack := rest, flags := outside }
    push (if captures then .wrap none .capture r else r)
  | _ => failure

/-- Repeats the last expression, which must not have been repeated just before. -/
def readRepeat (again : Bool) (few : Bool) (op : Bool → Wrapping) : Parse Unit := do
  if again then failure
  let p ← get
  match p.stack with
  | .expr a :: rest =>
    let w := op (p.flags.few != few)
    let c ← take
    modify fun p => { p with stack := .expr (.wrap c w a) :: rest }
    checkTop
    match w with
    | .counted lo hi _ =>
      if (2 ≤ lo || 2 ≤ hi.getD 0) && !(w.apply a.regex).countsWithin maxCount then failure
    | _ => pure ()
  | _ => failure

/-- A question mark after a repetition makes it prefer few. -/
def fewMark : List Char → Bool × List Char
  | '?' :: rest => (true, rest)
  | rest => (false, rest)

/-! ## Texts -/

/-- Opens a group after its parenthesis. -/
def readOpen (cs : List Char) : Parse (List Char) := do
  let f := (← get).flags
  let named (rest : List Char) : Parse (List Char) := do
    let some (_, rest) := groupName? rest | failure
    mark (.opening f true)
    return rest
  match cs with
  | '?' :: 'P' :: '<' :: rest => named rest
  | '?' :: '<' :: rest => named rest
  | '?' :: rest =>
    let some (flags, opens, rest) := flags? (rest.length + 1) rest f false false | failure
    if opens then mark (.opening f false)
    modify fun p => { p with flags }
    return rest
  | rest =>
    mark (.opening f true)
    return rest

/-- A bracketed class after its bracket. -/
def readClass (cs : List Char) : Parse (List Char) := do
  let f := (← get).flags
  let (negated, body) := match cs with
    | '^' :: rest => (true, rest)
    | _ => (false, cs)
  let some (s, rest) := classBody f (cs.length + 1) true body [] | failure
  add (.chars (if negated then s.complement else s))
  return rest

/-- What stands after a backslash. -/
def readEscape (cs : List Char) : Parse (List Char) := do
  let f := (← get).flags
  match cs with
  | [] => failure
  | 'Q' :: rest =>
    let (text, rest) := quoted rest
    for c in text do
      addLiteral c.toNat
    return rest
  | c :: rest =>
    match c with
    | 'A' =>
      add (.assert .textStart)
      return rest
    | 'z' =>
      add (.assert .textEnd)
      return rest
    | 'b' =>
      add (.assert .wordBoundary)
      return rest
    | 'B' =>
      add (.assert .noWordBoundary)
      return rest
    | _ =>
      match unicodeClass? f cs, letterClass? c with
      | some named, _ =>
        let some (s, rest) := named | failure
        add (.chars s)
        return rest
      | none, some (s, negated) =>
        add (.chars (classSet f s negated))
        return rest
      | none, none =>
        release (← take)
        let some (n, rest) := escaped? cs | failure
        addLiteral n
        return rest

/-- Reads a text; `again` says that a repetition stands right before it. -/
def readText (total : Nat) : Nat → Bool → List Char → Parse Unit
  | 0, _, _ => failure
  | _, _, [] => pure ()
  | fuel + 1, again, c :: rest => do
    let f := (← get).flags
    let repetition (op : Bool → Wrapping) (rest : List Char) : Parse Unit := do
      let (few, rest) := fewMark rest
      readRepeat again few op
      readText total fuel true rest
    match c with
    | '(' => readText total fuel false (← readOpen rest)
    | ')' =>
      readClose total
      readText total fuel false rest
    | '|' =>
      readBar
      readText total fuel false rest
    | '^' =>
      add (.assert (if f.multiLine then .lineStart else .textStart))
      readText total fuel false rest
    | '$' =>
      add (.assert (if f.multiLine then .lineEnd else .textEnd))
      readText total fuel false rest
    | '.' =>
      add (if f.dotNewline then .any else .anyButNewline)
      readText total fuel false rest
    | '[' => readText total fuel false (← readClass rest)
    | '*' => repetition .star rest
    | '+' => repetition .plus rest
    | '?' => repetition .opt rest
    | '{' =>
      match bounds? rest with
      | none =>
        addLiteral '{'.toNat
        readText total fuel false rest
      | some (lo, hi, rest) =>
        if maxCount < lo || maxCount < hi.getD 0 || hi.getD lo < lo then failure
        else repetition (.counted lo hi) rest
    | '\\' => readText total fuel false (← readEscape rest)
    | c =>
      addLiteral c.toNat
      readText total fuel false rest

/-- The expression that a text stands for. -/
def parse? (text : String) : Option Regex :=
  let total := text.length + 1
  let read : Parse Unit := do
    readText total total false text.toList
    closeGroup total
  match read.run {} with
  | some (_, { stack := [.expr d], .. }) => some d.regex
  | _ => none

/-- The expression that matches exactly a text. -/
def quoteMeta (text : String) : String :=
  text.foldl (fun acc c => if "\\.+*?()|[]\x7b\x7d^$".contains c then acc.push '\\' |>.push c else acc.push c) ""

end WholeProgram.Text.Regex
