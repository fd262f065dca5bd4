import WholeProgram.Config.CodeIdentifier

/-!
# Transfers of well-known functions

How taint passes through functions of the standard library of the analysed language, whose bodies are
not part of the program. The table is sorted by class and by function.
-/

namespace WholeProgram.Taint

/-- The ways in which a known function passes taint on. -/
inductive Passage where
  /-- From the first argument to the result. -/
  | argToResult
  /-- From the text and from the replacement to the result. -/
  | replaceToResult
  | baseToResult
  /-- From the first argument into the receiver. -/
  | argToBase
deriving DecidableEq, Repr

namespace Passage

/-- The pairs of positions between which taint passes. -/
def positions : Passage → List (String × String)
  | argToResult => [("0", "result")]
  | replaceToResult => [("0", "result"), ("2", "result")]
  | baseToResult => [("base", "result")]
  | argToBase => [("0", "base")]

end Passage

/-- Functions of one class that pass taint from their first argument to their result. -/
def plainFunctions (names : List String) : List (String × Passage) :=
  names.map fun n => (n, .argToResult)

/-- The functions known, class by class. -/
def knownFunctions : List (String × List (String × Passage)) :=
  [ ("bytes", plainFunctions ["Clone", "Join", "Repeat", "Title", "ToLower", "ToUpper", "Trim", "TrimPrefix",
      "TrimSpace", "TrimSuffix"]),
    ("bytes.Buffer", [("Bytes", .baseToResult), ("String", .baseToResult), ("Write", .argToBase),
      ("WriteString", .argToBase)]),
    ("encoding/base64", plainFunctions ["DecodeString", "EncodeToString"]),
    ("encoding/hex", plainFunctions ["DecodeString", "EncodeToString"]),
    ("html", plainFunctions ["UnescapeString"]),
    ("net/url", plainFunctions ["Parse", "PathUnescape", "QueryUnescape"]),
    ("path", plainFunctions ["Base", "Clean", "Dir", "Ext", "Join"]),
    ("path/filepath", plainFunctions ["Base", "Clean", "Dir", "Ext", "Join"]),
    ("strconv", plainFunctions ["Quote", "Unquote"]),
    ("strings", plainFunctions ["Clone", "Fields", "Join", "Repeat"]
      ++ [("Replace", .replaceToResult), ("ReplaceAll", .replaceToResult)]
      ++ plainFunctions ["Split", "Title", "ToLower", "ToTitle", "ToUpper", "Trim", "TrimLeft", "TrimPrefix",
        "TrimRight", "TrimSpace", "TrimSuffix"]),
    ("strings.Builder", [("String", .baseToResult), ("Write", .argToBase), ("WriteString", .argToBase)]) ]

/-- The transfers of the known functions. -/
def summaries : List CodeIdentifier :=
  knownFunctions.flatMap fun (cls, functions) =>
    functions.flatMap fun (name, passage) =>
      passage.positions.map fun (source, target) =>
        CodeIdentifier.compile
          { cls := Text.Regex.quoteMeta cls, method := Text.Regex.quoteMeta name, source, target }

end WholeProgram.Taint
