import WholeProgram.Text.Regex.Reading

/-!
# Sequences and alternatives in normal form

A sequence has no sequence among its parts, and an alternative no alternative among its choices. Choices
next to each other that begin alike share that beginning, and choices that are single characters become
one set. This changes the depth and the size of an expression, which are limited, and not what it
matches, with one exception: two beginnings of one letter are shared although it counts in either case in
one of them only.
-/

namespace WholeProgram.Text.Regex

/-! ## Sequences -/

/-- The drafts with the parts of each sequence in its place, whose cell is set free. -/
def unfoldSeqs : List Draft → Parse (List Draft)
  | [] => return []
  | .seq c parts :: rest => do
    release c
    return parts ++ (← unfoldSeqs rest)
  | a :: rest => return a :: (← unfoldSeqs rest)

/-- The sequence of some expressions. -/
def sequence (parts : List Draft) : Parse Draft := do
  match parts with
  | [a] => return a
  | _ =>
    let c ← take
    return .seq c (← unfoldSeqs parts)

/-! ## Beginnings -/

/-- Takes `n` characters from the literal text that an expression begins with. -/
def dropText (n : Nat) : Draft → Parse Draft
  | .leaf c f (.literal text fold) =>
    return if (text.drop n).isEmpty then .leaf c f .empty else .leaf c f (.literal (text.drop n) fold)
  | .seq c (.leaf d f (.literal text fold) :: rest) => do
    if (text.drop n).isEmpty then
      release d
      match rest with
      | [] => return .nothing c
      | [a] =>
        release c
        return a
      | _ => return .seq c rest
    else return .seq c (.leaf d f (.literal (text.drop n) fold) :: rest)
  | a => return a

/-- Takes the first part from an expression. Its cell is set free unless the part is used elsewhere. -/
def dropLeading (used : Bool) : Draft → Parse Draft
  | .seq c (a :: rest) => do
    if !used then release a.cell
    match rest with
    | [] => return .nothing c
    | [b] =>
      release c
      return b
    | _ => return .seq c rest
  | a => do
    if !used then release a.cell
    return .nothing (← take)

/-- The common beginning of two texts. -/
def commonText : List Nat → List Nat → List Nat
  | a :: as, b :: bs => if a == b then a :: commonText as bs else []
  | _, _ => []

/-! ## Runs of choices -/

/-- Joins a choice to the last run if they have a beginning in common. The runs are listed last first, and
each run too. -/
def addByText (runs : List (List Draft × List Nat × Bool)) (a : Draft) : List (List Draft × List Nat × Bool) :=
  let (text, fold) := a.leadingText
  match runs with
  | (run, runText, runFold) :: more =>
    let common := commonText runText text
    if fold == runFold && !common.isEmpty then (a :: run, common, runFold) :: more
    else ([a], text, fold) :: runs
  | [] => [([a], text, fold)]

/-- Joins a choice to the last run if they have their first part in common. -/
def addByPart (runs : List (List Draft × Option Draft)) (a : Draft) : List (List Draft × Option Draft) :=
  let first := a.leading?
  match runs, first with
  | (run, some f) :: more, some g =>
    if f.isShareable && f.isSamePart g then (a :: run, some f) :: more else ([a], first) :: runs
  | _, _ => ([a], first) :: runs

/-- Joins a choice to the last run if both are single characters. -/
def addBySet (runs : List (List Draft)) (a : Draft) : List (List Draft) :=
  match runs with
  | (b :: run) :: more =>
    if b.asSet?.isSome && a.asSet?.isSome then (a :: b :: run) :: more else [a] :: runs
  | _ => [a] :: runs

/-- Makes one set of a run of single characters. The cells of all but one are set free. -/
def joinRun : List Draft → Parse Draft
  | [] => return .nothing none
  | [a] => return a
  | a :: rest => do
    for b in rest do
      release b.cell
    return (rest.foldl Draft.joinSets a).tidy

/-- Keeps the last of choices of nothing that stand next to each other. -/
def dropNothings : List Draft → List Draft
  | a :: b :: rest => if a.isNothing && b.isNothing then dropNothings (b :: rest) else a :: dropNothings (b :: rest)
  | choices => choices

/-- The drafts with the choices of each alternative in its place, whose cell is set free. -/
def unfoldAlts : List Draft → Parse (List Draft)
  | [] => return []
  | .alt c choices :: rest => do
    release c
    return choices ++ (← unfoldAlts rest)
  | a :: rest => return a :: (← unfoldAlts rest)

/-- The alternative of some expressions. -/
def alternative : Nat → List Draft → Parse Draft
  | _, [a] => return a
  | 0, _ => failure
  | fuel + 1, choices => do
    let c ← take
    let choices ← unfoldAlts choices
    let choices ← (choices.foldl addByText []).reverse.mapM fun (run, text, fold) => do
      match run with
      | [a] => return a
      | _ =>
        let shared ← take
        let rests ← run.reverse.mapM fun a => do check (← dropText text.length a)
        let rest ← alternative fuel rests
        return .seq (← take) [.leaf shared { foldCase := fold } (.literal text fold), rest]
    let choices ← (choices.foldl addByPart []).reverse.mapM fun (run, first) => do
      match run.reverse, first with
      | a :: b :: more, some f =>
        let head ← check (← dropLeading true a)
        let others ← (b :: more).mapM fun a => do check (← dropLeading false a)
        let rest ← alternative fuel (head :: others)
        return .seq (← take) [f, rest]
      | a :: _, _ => return a
      | [], _ => return .nothing none
    let choices ← (choices.foldl addBySet []).reverse.mapM fun run => joinRun run.reverse
    match dropNothings choices with
    | [a] =>
      release c
      return a
    | choices => return .alt c choices

end WholeProgram.Text.Regex
