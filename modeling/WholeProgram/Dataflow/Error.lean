import WholeProgram.Program.Render
import WholeProgram.Text.Quoted
import WholeProgram.Log

/-!
# Why an analysis has no result

The causes are kept apart from their wording: `AnalysisError.message` gives the text.
-/

namespace WholeProgram

/-- No concrete method was found for a call. -/
structure DispatchError where
  kind : CallKind
  cls : ClassId
  subsig : String
  site : Option Site
deriving DecidableEq, Repr

namespace DispatchError

def message (p : Program) (e : DispatchError) : String :=
  let missing := "no concrete method " ++ e.subsig ++ " in " ++ p.className e.cls ++ " or its super classes"
  match e.site with
  | none => missing
  | some s =>
    e.kind.text ++ " call " ++ Text.quote (p.siteText s) ++ " in " ++ p.methodText s.method ++ ": " ++ missing

end DispatchError

/-- Why an analysis has no result. -/
inductive AnalysisError where
  | dispatch (e : DispatchError)
  | noEntryMethod
  /-- The solver took more steps than allowed; `unit` is what it counts. -/
  | iterationLimit (bound : Int) (unit : String)
  | unknownCallKind (code : Int)
  | unknownOperator (op : BinaryOp)
  /-- The solver ran longer than its own bound. -/
  | unfinished
  | failed (message : String)
  /-- The error of a part of the analysis. -/
  | within (what : String) (cause : AnalysisError)
deriving Repr

namespace AnalysisError

def message (p : Program) : AnalysisError → String
  | dispatch e => e.message p
  | noEntryMethod => "no entry method"
  | iterationLimit bound unit => "iteration limit exceeded: more than " ++ toString bound ++ " " ++ unit
  | unknownCallKind code => "unknown call kind " ++ toString code
  | unknownOperator op => "unknown binary operator " ++ op.text
  | unfinished => "the analysis did not end"
  | failed text => text
  | within what cause => what ++ ": " ++ cause.message p

/-- The innermost cause. -/
def cause : AnalysisError → AnalysisError
  | within _ e => e.cause
  | e => e

/-- The program itself is malformed: such an error is never put into the words of an analysis. -/
def isFault : AnalysisError → Bool
  | unknownCallKind _ | unknownOperator _ => true
  | _ => false

/-- Runs a part of an analysis; its errors say which part it was. -/
def inPart {α : Type} (what : String) (c : Logged AnalysisError α) : Logged AnalysisError α :=
  tryCatch c fun e => throw (if e.isFault then e else .within what e)

end AnalysisError

end WholeProgram
