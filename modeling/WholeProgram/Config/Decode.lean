import WholeProgram.Text.Yaml.Element

/-!
# Decoding documents

A decoder reads an element into a value that has a default. It gives nothing for an element that stands for
nothing, so that the default stays, and nothing for one of the wrong kind, which is a mistake; it goes on
after a mistake, but the document counts as malformed. Aliases are unfolded on the way; an alias within the
element that it stands for is an error that ends the decoding, and so is a document most of which comes
from aliases.

The entries of a mapping under a merge key count as entries of the mapping around it, unless they are
given there. To find out, keys are compared, which cannot be done with collections.
-/

namespace WholeProgram.Config

open Text.Yaml (Element Document resolve?)

/-- Why a document cannot be decoded. -/
inductive Fault where
  /-- The document is malformed. -/
  | malformed
  /-- A collection stands among keys that are compared. -/
  | incomparable
deriving DecidableEq, Repr

/-- Where a decoder is. -/
structure Place where
  /-- The elements with anchors. -/
  anchors : List (Nat × Element)
  /-- The aliases that are being unfolded. -/
  unfolding : List Nat := []

/-- What has been decoded so far. -/
structure Progress where
  /-- The number of elements that have been decoded. -/
  elements : Nat := 0
  /-- The number of those within aliases. -/
  aliased : Nat := 0
  /-- Some element was of the wrong kind. -/
  mistaken : Bool := false

/-- A step of decoding. -/
abbrev Decode := ReaderT Place (StateT Progress (Except Fault))

/-- The elements up to which nearly all may come from aliases. -/
def smallEffort : Nat := 400000

/-- The elements from which only few may come from aliases. -/
def largeEffort : Nat := 4000000

/-- The share of elements that may come from aliases. -/
def allowedShare (elements : Nat) : Float :=
  if elements ≤ smallEffort then 0.99
  else if largeEffort ≤ elements then 0.10
  else 0.99 - 0.89 * ((elements - smallEffort).toFloat / (largeEffort - smallEffort).toFloat)

/-- Too many elements come from aliases. -/
def Progress.isExcessive (p : Progress) : Bool :=
  100 < p.aliased && 1000 < p.elements && allowedShare p.elements < p.aliased.toFloat / p.elements.toFloat

namespace Decode

/-- Ends the decoding of a malformed document. -/
def reject {α : Type} : Decode α := throw .malformed

/-- Remembers that some element was of the wrong kind. -/
def noteMistake : Decode Unit := modify fun p => { p with mistaken := true }

/-- Goes on after an element of the wrong kind. -/
def mistake {α : Type} : Decode (Option α) := do
  noteMistake
  return none

/-- Counts an element. -/
def count : Decode Unit := do
  let within := !(← read).unfolding.isEmpty
  let p ← get
  let p := { p with elements := p.elements + 1, aliased := if within then p.aliased + 1 else p.aliased }
  if p.isExcessive then reject else set p

/-- Decodes an element, or the one that an alias stands for. -/
def visit {α : Type} (decode : Element → Decode α) (e : Element) : Decode α := do
  count
  match e with
  | .alias number _ anchor =>
    let place ← read
    if place.unfolding.contains number then reject
    else
      let some target := place.anchors.lookup anchor | reject
      withReader (fun p => { p with unfolding := number :: p.unfolding }) do
        count
        decode target
  | _ => decode e

/-- The element itself, or the one that an alias stands for. -/
def target (e : Element) : Decode Element := do
  match e with
  | .alias _ _ anchor => return ((← read).anchors.lookup anchor).getD e
  | _ => return e

/-! ## Scalars -/

/-- The value of a scalar; anything else is a mistake. -/
def scalar : Element → Decode (Option Text.Yaml.Value)
  | .scalar tag plain text => do
    let some v := resolve? tag plain text | reject
    return some v
  | _ => mistake

/-- Any scalar but null, as text. -/
def text (e : Element) : Decode (Option Text.ByteText) := do
  match ← scalar e, e with
  | none, _ | some .null, _ => return none
  | some (.text s), _ => return some s
  | some _, .scalar _ _ s => return some s
  | some _, _ => mistake

/-- A number with a fraction, cut to an integer. What lies below the integers is the least one, and so is
the first number above them. -/
def truncate? (x : Float) : Option Int :=
  if x < 9223372036854775808.0 then some x.toInt64.toInt
  else if x == 9223372036854775808.0 then some Word.minSigned
  else none

/-- An integer; a number with a fraction is cut. -/
def int (e : Element) : Decode (Option Int) := do
  match ← scalar e with
  | none | some .null => return none
  | some (.int n) => if n ≤ Word.maxSigned then return some n else mistake
  | some (.float x) =>
    match truncate? x with
    | some n => return some n
    | none => mistake
  | some _ => mistake

/-- A truth value in one of its spellings. -/
def bool (e : Element) : Decode (Option Bool) := do
  match ← scalar e with
  | none | some .null => return none
  | some (.bool b) => return some b
  | some (.text s) =>
    if ["y", "Y", "yes", "Yes", "YES", "on", "On", "ON"].any s.isText then return some true
    else if ["n", "N", "no", "No", "NO", "off", "Off", "OFF"].any s.isText then return some false
    else mistake
  | some _ => mistake

/-- A list; its items that stand for nothing do not count. -/
def list {α : Type} (item : Element → Decode (Option α)) : Element → Decode (Option (List α))
  | .seq _ items => return some ((← items.mapM (visit item)).filterMap id)
  | e => do
    match ← scalar e with
    | none => return none
    | some .null => return some []
    | some _ => mistake

/-! ## Mappings -/

/-- No key of a mapping stands twice. -/
def distinctKeys : List (Element × Element) → Bool
  | [] => true
  | (k, _) :: rest => !rest.any (fun e => k.sameKey e.1) && distinctKeys rest

/-- All keys of a mapping are texts. -/
def hasTextKeys (entries : List (Element × Element)) : Decode Bool :=
  entries.allM fun e => do
    let tag := (← target e.1).tag
    return tag == "!!str" || tag == "!!merge"

/-- What stands as a key. -/
inductive Key where
  | scalar (v : Text.Yaml.Value)
  | collection

/-- How the entries of a mapping are decoded into a value. -/
structure Entries (σ : Type) where
  /-- The key of an entry; an entry whose key is nothing does not count. -/
  key : Element → Decode (Option Key)
  /-- The value changed by an entry. -/
  entry : Text.Yaml.Value → Element → σ → Decode σ
  /-- A key that must not be met twice, however it is written. -/
  once : Text.Yaml.Value → Bool

/-- A key that is text. -/
def textKey (e : Element) : Decode (Option Key) := do return (← text e).map fun t => .scalar (.text t)

/-- The keys that are given, seen from a mapping whose entries are merged; nothing outside of
merges. -/
abbrev Given := Option (List Text.Yaml.Value)

def Given.holds (g : Given) (v : Text.Yaml.Value) : Bool := (g.getD []).any v.same

def Given.add (g : Given) (v : Text.Yaml.Value) : Given := g.map (v :: ·)

mutual

/-- Decodes a value of any kind, as far as it can be a key; the keys that are given may grow within. -/
def any : Nat → Given → Element → Decode (Option Key × Given)
  | 0, _, _ => reject
  | fuel + 1, given, e => do
    match e with
    | .seq _ items =>
      let given ← items.foldlM (fun given i => do return (← visit (any fuel given) i).2) given
      return (some .collection, given)
    | .map _ entries =>
      let ofText ← hasTextKeys entries
      let (done, given) ← mapping fuel
        { key := if ofText then textKey else fun k => do return (← any fuel none k).1
          entry := fun _ v _ => do
            let _ ← visit (any fuel none) v
          once := fun _ => false }
        given entries ()
      return (done.map fun _ => .collection, given)
    | e => return ((← scalar e).map .scalar, given)

/-- Decodes the entries of a mapping in order, and those to merge after them. -/
def mapping {σ : Type} : Nat → Entries σ → Given → List (Element × Element) → σ → Decode (Option σ × Given)
  | 0, _, _, _, _ => reject
  | fuel + 1, f, given, entries, s => do
    if !distinctKeys entries then return (← mistake, given)
    let (s, given, _) ← entries.foldlM
      (fun (acc : σ × Given × List Text.Yaml.Value) (e : Element × Element) => do
        let (s, given, seen) := acc
        if e.1.isMerge then return acc
        else
          match ← visit f.key e.1 with
          | none => return acc
          | some .collection => throw (if given.isSome then .incomparable else .malformed)
          | some (.scalar k) =>
            if given.holds k then return acc
            else if f.once k && seen.any k.same then
              noteMistake
              return (s, given.add k, seen)
            else return (← f.entry k e.2 s, given.add k, k :: seen))
      (s, given, [])
    match entries.reverse.find? (·.1.isMerge) with
    | none => return (some s, given)
    | some (_, source) =>
      let inner ← match given with
        | some keys => pure keys
        | none =>
          let gather := fun (keys : List Text.Yaml.Value) (e : Element × Element) => do
            match ← visit (any fuel (some keys)) e.1 with
            | (none, keys) => return keys.getD []
            | (some .collection, _) => throw .incomparable
            | (some (.scalar k), keys) => return k :: keys.getD []
          entries.foldlM gather []
      let (s, inner) ← mergeFrom fuel f (some inner) source s
      return (some s, if given.isSome then inner else none)

/-- Decodes the entries of a mapping, or of each mapping of a list, that are not given. -/
def mergeFrom {σ : Type} : Nat → Entries σ → Given → Element → σ → Decode (σ × Given)
  | 0, _, _, _, _ => reject
  | fuel + 1, f, given, source, s => do
    let one (given : Given) (e : Element) (s : σ) : Decode (σ × Given) := do
      match ← target e with
      | .map _ _ =>
        let (done, given) ← visit
          (fun t => do
            match t with
            | .map _ entries => mapping fuel f given entries s
            | _ => reject)
          e
        return (done.getD s, given)
      | _ => reject
    match source with
    | .seq _ items => items.foldlM (fun (s, given) e => one given e s) (s, given)
    | _ => one given source s

end

/-- A mapping, entry by entry, over a value; an element that stands for nothing gives another one. -/
def entriesOf {σ : Type} (fuel : Nat) (f : Entries σ) (nothing : Option σ) (e : Element) (s : σ) :
    Decode (Option σ) := do
  match e with
  | .map _ entries => return (← mapping fuel f none entries s).1
  | e =>
    match ← scalar e with
    | none => return none
    | some .null => return nothing
    | some _ => mistake

/-- A mapping with fields, over a value that has them all. -/
def record {σ : Type} (fuel : Nat) (fields : List (String × (Element → σ → Decode σ))) (e : Element) (s : σ) :
    Decode (Option σ) :=
  let lookup : Text.Yaml.Value → Option (Element → σ → Decode σ)
    | .text t => t.text?.bind fun name => fields.lookup name
    | _ => none
  entriesOf fuel
    { key := textKey
      entry := fun k v s => ((lookup k).map fun set => set v s).getD (pure s)
      once := fun k => (lookup k).isSome }
    none e s

/-- A field that is set to what its decoder gives, and kept if it gives nothing. -/
def field {σ α : Type} (name : String) (decode : Element → Decode (Option α)) (put : σ → α → σ) :
    String × (Element → σ → Decode σ) :=
  (name, fun e s => do
    match ← visit decode e with
    | some v => return put s v
    | none => return s)

/-- The keys of a mapping whose values are of any kind. -/
def keys (fuel : Nat) (e : Element) : Decode (Option (List Text.ByteText)) :=
  entriesOf fuel
    { key := textKey
      entry := fun k v names => do
        let _ ← visit (any fuel none) v
        match k with
        | .text name => return name :: names
        | _ => return names
      once := fun _ => false }
    (some []) e []

/-- Decodes a document. -/
def document {α : Type} (d : Document) (decode : Element → Decode (Option α)) : Except Fault (Option α) :=
  let all : Decode (Option α) := do
    count
    visit decode d.root
  match all { anchors := d.anchors } {} with
  | .error fault => .error fault
  | .ok (a, p) => if p.mistaken then .error .malformed else .ok a

end Decode

end WholeProgram.Config
