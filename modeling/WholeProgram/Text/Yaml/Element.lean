import WholeProgram.Text.Yaml.Token
import WholeProgram.Text.Yaml.Value

/-!
# Documents

A document is a tree of scalars, sequences and mappings. An element can have an anchor, and an alias
stands for the element of an anchor before it, which may be one that is still open. The tree is built by
descent over the tokens; `Document.read?` gives nothing for a text that does not begin with a document.
-/

namespace WholeProgram.Text.Yaml

/-- An element of a document. -/
inductive Element where
  /-- A scalar with the short form of its tag, which is empty for none. -/
  | scalar (tag : String) (plain : Bool) (text : String)
  | seq (tag : String) (items : List Element)
  | map (tag : String) (entries : List (Element × Element))
  /-- The use of a name for the element with an anchor; uses and anchors are numbered. -/
  | alias (number : Nat) (name : String) (anchor : Nat)
deriving Inhabited

namespace Element

/-- The element of a value that is left out. -/
def absent : Element := .scalar "" true ""

/-- Two keys of a mapping are written alike, so that the mapping has a key twice. -/
def sameKey : Element → Element → Bool
  | .scalar _ _ a, .scalar _ _ b => a == b
  | .alias _ a _, .alias _ b _ => a == b
  | .seq _ _, .seq _ _ | .map _ _, .map _ _ => true
  | _, _ => false

/-- The key of an entry whose value is a mapping to take entries from. -/
def isMerge : Element → Bool
  | .scalar tag plain text => text == "<<" && (tag == "!!merge" || (tag.isEmpty && plain))
  | _ => false

/-- The short form of the tag of an element that is no alias, also where none is written. -/
def tag : Element → String
  | .scalar tag plain text =>
    if !tag.isEmpty then tag
    else if !plain then "!!str"
    else if text == "<<" then "!!merge"
    else (guess true text).tag
  | .seq tag _ => if tag.isEmpty then "!!seq" else tag
  | .map tag _ => if tag.isEmpty then "!!map" else tag
  | .alias _ _ _ => ""

end Element

/-- A document: its root and the elements with anchors. -/
structure Document where
  root : Element
  anchors : List (Nat × Element)
  /-- Greater than the depth of the tree with all aliases unfolded, as long as none holds itself. -/
  bound : Nat

/-! ## The state of a descent -/

/-- What a descent over the tokens knows. -/
structure Descent where
  scanner : Scanner
  /-- The numbers of the anchors by name, the latest first. -/
  names : List (String × Nat) := []
  /-- The elements with anchors. -/
  anchors : List (Nat × Element) := []
  /-- The number of anchors so far. -/
  anchored : Nat := 0
  /-- The number of aliases so far. -/
  aliases : Nat := 0
  /-- What the handles of tags stand for. -/
  handles : List (String × String) := []

/-- A step of the descent; it fails for a text that is no document. -/
abbrev Parse := StateT Descent Option

namespace Parse

/-- The next token. -/
def peek : Parse Token := fun d => (d.scanner.peek).map fun (t, scanner) => (t, { d with scanner })

/-- Takes the next token. -/
def skip : Parse Unit := modify fun d => { d with scanner := d.scanner.skip }

/-- Takes the next token and looks at the one after it. -/
def advance : Parse Token := do
  skip
  peek

/-- The properties before an element: an anchor and a tag. -/
structure Properties where
  anchor : Option String := none
  tag : Option (String × String) := none

/-- The properties here, in either order. -/
def properties : Parse Properties := do
  match ← peek with
  | .anchor name =>
    match ← advance with
    | .tag handle suffix =>
      skip
      return { anchor := some name, tag := some (handle, suffix) }
    | _ => return { anchor := some name }
  | .tag handle suffix =>
    match ← advance with
    | .anchor name =>
      skip
      return { anchor := some name, tag := some (handle, suffix) }
    | _ => return { tag := some (handle, suffix) }
  | _ => return {}

/-- The tag that a handle and a suffix stand for; empty for none. -/
def expandTag : Option (String × String) → Parse String
  | none => return ""
  | some (handle, suffix) => do
    if handle.isEmpty then return suffix
    else
      let some expansion := (← get).handles.lookup handle | failure
      let tag := expansion ++ suffix
      if tag.isEmpty then failure else return tag

/-- Gives the next number to an anchor. -/
def declare : Option String → Parse (Option Nat)
  | none => return none
  | some name => do
    let number := (← get).anchored
    modify fun d => { d with names := (name, number) :: d.names, anchored := number + 1 }
    return some number

/-- Keeps an element under the number of its anchor. -/
def keep (number : Option Nat) (e : Element) : Parse Element := do
  match number with
  | some n => modify fun d => { d with anchors := (n, e) :: d.anchors }
  | none => pure ()
  return e

/-- The alias with a name; its anchor must stand before it. -/
def useAlias (name : String) : Parse Element := do
  let d ← get
  let some anchor := d.names.lookup name | failure
  set { d with aliases := d.aliases + 1 }
  skip
  return .alias d.aliases name anchor

/-! ## Elements -/

mutual

/-- The element here. A block collection can only begin here if `block` is set, and a sequence without
indentation of its own only if `indentless` is. -/
def element : Nat → Bool → Bool → Parse Element
  | 0, _, _ => failure
  | fuel + 1, block, indentless => do
    match ← peek with
    | .alias name => useAlias name
    | _ =>
      let props ← properties
      let token ← peek
      let tag ← expandTag props.tag
      let number ← declare props.anchor
      let short := if tag == "!" then "" else shortTag tag
      let propertied := props.anchor.isSome || !tag.isEmpty
      match token with
      | .blockEntry =>
        if indentless then keep number (.seq short (← indentlessItems fuel []))
        else if propertied then keep number (.scalar short true "") else failure
      | .scalar text plain =>
        skip
        keep number (.scalar short plain text)
      | .flowSequenceStart =>
        skip
        keep number (.seq short (← flowItems fuel true []))
      | .flowMappingStart =>
        skip
        keep number (.map short (← flowEntries fuel true []))
      | .blockSequenceStart =>
        if block then
          skip
          keep number (.seq short (← blockItems fuel []))
        else if propertied then keep number (.scalar short true "") else failure
      | .blockMappingStart =>
        if block then
          skip
          keep number (.map short (← blockEntries fuel []))
        else if propertied then keep number (.scalar short true "") else failure
      | _ => if propertied then keep number (.scalar short true "") else failure

/-- The items of a block sequence up to its end. -/
def blockItems : Nat → List Element → Parse (List Element)
  | 0, _ => failure
  | fuel + 1, items => do
    match ← peek with
    | .blockEntry =>
      match ← advance with
      | .blockEntry | .blockEnd => blockItems fuel (Element.absent :: items)
      | _ => blockItems fuel ((← element fuel true false) :: items)
    | .blockEnd =>
      skip
      return items.reverse
    | _ => failure

/-- The items of a sequence that is indented like the keys around it. -/
def indentlessItems : Nat → List Element → Parse (List Element)
  | 0, _ => failure
  | fuel + 1, items => do
    match ← peek with
    | .blockEntry =>
      match ← advance with
      | .blockEntry | .key | .value | .blockEnd => indentlessItems fuel (Element.absent :: items)
      | _ => indentlessItems fuel ((← element fuel true false) :: items)
    | _ => return items.reverse

/-- The entries of a block mapping up to its end. -/
def blockEntries : Nat → List (Element × Element) → Parse (List (Element × Element))
  | 0, _ => failure
  | fuel + 1, entries => do
    match ← peek with
    | .key =>
      let key ← match ← advance with
        | .key | .value | .blockEnd => pure Element.absent
        | _ => element fuel true true
      let value ← match ← peek with
        | .value =>
          match ← advance with
          | .key | .value | .blockEnd => pure Element.absent
          | _ => element fuel true true
        | _ => pure Element.absent
      blockEntries fuel ((key, value) :: entries)
    | .blockEnd =>
      skip
      return entries.reverse
    | _ => failure

/-- The items of a flow sequence up to its closing bracket; an item can be a mapping with one entry. -/
def flowItems : Nat → Bool → List Element → Parse (List Element)
  | 0, _, _ => failure
  | fuel + 1, first, items => do
    let token ← match first, ← peek with
      | false, .flowEntry => advance
      | false, .flowSequenceEnd => pure .flowSequenceEnd
      | false, _ => failure
      | true, t => pure t
    match token with
    | .flowSequenceEnd =>
      skip
      return items.reverse
    | .key =>
      skip
      let entry ← flowPair fuel
      flowItems fuel false (.map "" [entry] :: items)
    | _ => flowItems fuel false ((← element fuel false false) :: items)

/-- The entry of a mapping within a flow sequence. -/
def flowPair : Nat → Parse (Element × Element)
  | 0 => failure
  | fuel + 1 => do
    let key ← match ← peek with
      | .value | .flowEntry | .flowSequenceEnd => do
        skip
        pure Element.absent
      | _ => element fuel false false
    let value ← match ← peek with
      | .value =>
        match ← advance with
        | .flowEntry | .flowSequenceEnd => pure Element.absent
        | _ => element fuel false false
      | _ => pure Element.absent
    return (key, value)

/-- The entries of a flow mapping up to its closing brace. -/
def flowEntries : Nat → Bool → List (Element × Element) → Parse (List (Element × Element))
  | 0, _, _ => failure
  | fuel + 1, first, entries => do
    let token ← match first, ← peek with
      | false, .flowEntry => advance
      | false, .flowMappingEnd => pure .flowMappingEnd
      | false, _ => failure
      | true, t => pure t
    match token with
    | .flowMappingEnd =>
      skip
      return entries.reverse
    | .key =>
      let key ← match ← advance with
        | .value | .flowEntry | .flowMappingEnd => pure Element.absent
        | _ => element fuel false false
      let value ← match ← peek with
        | .value =>
          match ← advance with
          | .flowEntry | .flowMappingEnd => pure Element.absent
          | _ => element fuel false false
        | _ => pure Element.absent
      flowEntries fuel false ((key, value) :: entries)
    | _ =>
      let key ← element fuel false false
      let _ ← peek
      flowEntries fuel false ((key, Element.absent) :: entries)

end

/-! ## Documents -/

/-- The directives before a document: at most one version, which must be 1.1, and handles that differ. -/
def directives : Nat → Bool → Parse Unit
  | 0, _ => failure
  | fuel + 1, versioned => do
    match ← peek with
    | .versionDirective major minor =>
      if versioned || major != 1 || minor != 1 then failure
      else
        skip
        directives fuel true
    | .tagDirective handle expansion =>
      if ((← get).handles.lookup handle).isSome then failure
      else
        modify fun d => { d with handles := d.handles ++ [(handle, expansion)] }
        skip
        directives fuel versioned
    | _ =>
      -- The handles that need no directive.
      modify fun d => { d with handles := d.handles ++ [("!", "!"), ("!!", standardTag)] }

/-- The root of the first document; `none` for a text without any. -/
def root (fuel : Nat) : Parse (Option Element) := do
  skip
  match ← peek with
  | .streamEnd => return none
  | .versionDirective .. | .tagDirective .. | .documentStart =>
    directives fuel false
    match ← peek with
    | .documentStart =>
      match ← advance with
      | .versionDirective .. | .tagDirective .. | .documentStart | .documentEnd | .streamEnd =>
        return some Element.absent
      | _ => return some (← element fuel true false)
    | _ => failure
  | _ =>
    directives fuel false
    return some (← element fuel true false)

end Parse

/-- The first document of a text: `none` for a text that does not begin with one. What follows the
document does not count, save for the tokens that are looked at to find its end. A text without a document
is one with nothing in it. -/
def Document.read? (text : String) : Option Document :=
  let fuel := 8 * text.length + 32
  let read : Parse Element := do
    let _ ← Parse.peek
    match ← Parse.root fuel with
    | none => return Element.absent
    | some e =>
      let _ ← Parse.peek
      return e
  (read.run { scanner := Scanner.ofString text }).map fun (root, d) =>
    { root, anchors := d.anchors, bound := (fuel + 1) * (d.aliases + 2) }

end WholeProgram.Text.Yaml
