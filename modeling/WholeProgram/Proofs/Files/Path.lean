import WholeProgram.Files.Path

/-!
# Places and their texts

A path has one shape once it is clean: steps up, which a path from the root does not have, and then names.
Such a list of elements is read back from its text, so that a place has one clean path, and the elements
of a path lead to the same place in one go or in two.
-/

namespace WholeProgram

/-! ## Elements -/

theorem elements_ne_nil (path : String) : elements path ≠ [] := by
  simp [elements]

theorem intercalate_elements (path : String) : "/".intercalate (elements path) = path := by
  have back : ((elements path).map String.toList) = path.toList.splitOn '/' := by
    simp [elements, Function.comp_def]
  apply String.toList_inj.mp
  rw [String.toList_intercalate, back]
  exact List.intercalate_splitOn '/'

theorem elements_injective {path path' : String} (same : elements path = elements path') : path = path' := by
  rw [← intercalate_elements path, same, intercalate_elements]

/-- Texts without slashes are the elements of the path that they are joined to. -/
theorem elements_intercalate {es : List String} (nonempty : es ≠ []) (plain : ∀ e ∈ es, '/' ∉ e.toList) :
    elements ("/".intercalate es) = es := by
  have split : List.splitOn '/' (['/'].intercalate (es.map String.toList)) = es.map String.toList :=
    List.splitOn_intercalate '/' (by simpa using plain) (by simpa using nonempty)
  rw [elements, String.toList_intercalate]
  simp [show ("/" : String).toList = ['/'] from rfl, split, Function.comp_def]

theorem elements_eq_singleton {path : String} (plain : '/' ∉ path.toList) : elements path = [path] := by
  simp [elements, List.splitOn_eq_singleton plain]

theorem elements_join (path rest : String) : elements (path ++ "/" ++ rest) = elements path ++ elements rest := by
  simp [elements, show ("/" : String).toList = ['/'] from rfl, List.splitOn_append_cons_self]

/-- A piece between two separators has no separator and stands in the list as it is. -/
theorem splitOn_piece (l : List Char) : ∀ piece ∈ l.splitOn '/', '/' ∉ piece ∧ piece <:+: l := by
  by_cases slash : '/' ∈ l
  · obtain ⟨before, rest, rfl, first⟩ := List.eq_append_cons_of_mem slash
    have shorter : rest.length < (before ++ '/' :: rest).length := by simp; omega
    have later := splitOn_piece rest
    rw [List.splitOn_append_cons_self_of_not_mem first]
    intro piece h
    rcases List.mem_cons.mp h with rfl | h
    · exact ⟨first, List.prefix_append .. |>.isInfix⟩
    · exact ⟨(later piece h).1, (later piece h).2.trans ⟨before ++ ['/'], [], by simp⟩⟩
  · rw [List.splitOn_eq_singleton slash]
    intro piece h
    obtain rfl := List.mem_singleton.mp h
    exact ⟨slash, List.infix_rfl⟩
termination_by l.length

theorem not_slash_of_mem_elements {path e : String} (h : e ∈ elements path) : '/' ∉ e.toList := by
  obtain ⟨piece, member, rfl⟩ := List.mem_map.mp h
  simpa using (splitOn_piece _ piece member).1

theorem infix_of_mem_elements {path e : String} (h : e ∈ elements path) : e.toList <:+: path.toList := by
  obtain ⟨piece, member, rfl⟩ := List.mem_map.mp h
  simpa using (splitOn_piece _ piece member).2

/-- What is added to the end of a path, without a slash, is added to its last element. -/
theorem elements_append {path ending : String} (plain : '/' ∉ ending.toList) :
    elements (path ++ ending) =
      (elements path).dropLast ++ [(elements path).getLast (elements_ne_nil path) ++ ending] := by
  generalize lastIs : (elements path).getLast (elements_ne_nil path) = last
  have parts : elements path = (elements path).dropLast ++ [last] := by
    rw [← lastIs, List.dropLast_concat_getLast]
  have lastPlain : '/' ∉ (last ++ ending).toList := by
    have : last ∈ elements path := lastIs ▸ List.getLast_mem _
    simpa using ⟨not_slash_of_mem_elements this, plain⟩
  have whole := intercalate_elements path
  by_cases only : (elements path).dropLast = []
  · rw [parts, only, List.nil_append, String.intercalate_singleton] at whole
    rw [only, ← whole, elements_eq_singleton lastPlain, List.nil_append]
  · rw [parts, String.intercalate_append_of_ne_nil only (by simp), String.intercalate_singleton] at whole
    have initial : elements ("/".intercalate (elements path).dropLast) = (elements path).dropLast :=
      elements_intercalate only fun e h => not_slash_of_mem_elements (List.dropLast_subset _ h)
    have extended : path ++ ending = "/".intercalate (elements path).dropLast ++ "/" ++ (last ++ ending) := by
      rw [← String.append_assoc, whole]
    rw [extended, elements_join, initial, elements_eq_singleton lastPlain]

/-! ## Places -/

/-- An element that leads on: it is not empty, stands for no step, and has no slash. -/
def IsName (element : String) : Prop :=
  element ≠ "" ∧ element ≠ "." ∧ element ≠ ".." ∧ '/' ∉ element.toList

/-- The elements of a clean path, from their end: names, and before them steps up. -/
inductive IsPlace (rooted : Bool) : List String → Prop where
  | up (n : Nat) (h : n = 0 ∨ rooted = false) : IsPlace rooted (List.replicate n "..")
  | name {element : String} {place : List String} (h : IsName element) (below : IsPlace rooted place) :
    IsPlace rooted (element :: place)

theorem IsPlace.nil (rooted : Bool) : IsPlace rooted [] := .up 0 (.inl rfl)

theorem enter_name {element : String} (h : IsName element) (rooted : Bool) (place : List String) :
    enter rooted place element = element :: place := by
  simp [enter, h.1, h.2.1, h.2.2.1]

theorem IsPlace.enter {rooted : Bool} {place : List String} (h : IsPlace rooted place) {element : String}
    (plain : '/' ∉ element.toList) : IsPlace rooted (enter rooted place element) := by
  by_cases stay : element = "" ∨ element = "."
  · have same : WholeProgram.enter rooted place element = place := by
      rcases stay with rfl | rfl <;> simp [WholeProgram.enter]
    rwa [same]
  · by_cases up : element = ".."
    · subst up
      cases h with
      | up n free =>
        cases n with
        | zero =>
          cases rooted with
          | true => exact .nil true
          | false => exact .up 1 (.inr rfl)
        | succ n =>
          have higher : IsPlace rooted (List.replicate (n + 2) "..") := .up _ (.inr (free.resolve_left (by simp)))
          simpa [WholeProgram.enter, List.replicate_succ] using higher
      | name h below => simpa [WholeProgram.enter, h.2.2.1] using below
    · have isName : IsName element := ⟨fun h => stay (.inl h), fun h => stay (.inr h), up, plain⟩
      rw [enter_name isName]
      exact .name isName h

/-- Elements lead from place to place. -/
theorem IsPlace.foldl_enter {rooted : Bool} {es : List String} (plain : ∀ e ∈ es, '/' ∉ e.toList)
    {place : List String} (h : IsPlace rooted place) : IsPlace rooted (es.foldl (WholeProgram.enter rooted) place) := by
  induction es generalizing place with
  | nil => exact h
  | cons e es ih =>
    exact ih (fun e' h' => plain e' (List.mem_cons_of_mem _ h')) (h.enter (plain e List.mem_cons_self))

theorem isPlace_placeOf (path : String) : IsPlace (isRooted path) (placeOf path) :=
  IsPlace.foldl_enter (fun _ h => not_slash_of_mem_elements h) (.nil _)

/-- Each element of a place stands for itself in a text. -/
theorem IsPlace.readable {rooted : Bool} {place : List String} (h : IsPlace rooted place) :
    ∀ e ∈ place, e ≠ "" ∧ '/' ∉ e.toList := by
  induction h with
  | up n =>
    intro e member
    rw [List.eq_of_mem_replicate member]
    decide
  | name h below ih => simpa using ⟨⟨h.1, h.2.2.2⟩, ih⟩

/-- The elements of a place lead to it. -/
theorem IsPlace.foldl_reverse {rooted : Bool} {place : List String} (h : IsPlace rooted place) :
    place.reverse.foldl (WholeProgram.enter rooted) [] = place := by
  induction h with
  | up n free =>
    rw [List.reverse_replicate]
    induction n with
    | zero => rfl
    | succ n ih =>
      have relative : rooted = false := free.resolve_left (by simp)
      rw [List.replicate_succ', List.foldl_append, ih (.inr relative), ← List.replicate_succ']
      cases n <;> simp [WholeProgram.enter, relative, List.replicate_succ]
  | name h below ih => simp [ih, enter_name h]

/-! ## The text of a place -/

/-- What stands between the slashes of the text of a place. -/
theorem elements_placeText {rooted : Bool} {place : List String} (h : IsPlace rooted place) :
    elements (placeText rooted place) =
      if place = [] then (if rooted then ["", ""] else ["."])
      else if rooted then "" :: place.reverse else place.reverse := by
  by_cases empty : place = []
  · subst empty
    cases rooted <;> decide +kernel
  · have joined : elements ("/".intercalate place.reverse) = place.reverse :=
      elements_intercalate (by simpa using empty) fun e member => (h.readable e (List.mem_reverse.mp member)).2
    cases rooted with
    | true =>
      have rootElements : elements ("" ++ "/" ++ "/".intercalate place.reverse) = "" :: place.reverse := by
        rw [elements_join, joined]
        rfl
      simpa [placeText, empty] using rootElements
    | false =>
      have nonempty : "/".intercalate place.reverse ≠ "" := by
        intro blank
        rw [blank] at joined
        have single : place = [""] := by
          simpa [elements] using (congrArg List.reverse joined).symm
        exact (h.readable "" (by simp [single])).1 rfl
      simpa [placeText, empty, nonempty] using joined

/-- A path from the root has nothing before its first slash. -/
theorem elements_of_isRooted {path : String} (h : isRooted path = true) : ∃ rest, elements path = "" :: rest := by
  obtain ⟨rest, eq⟩ := String.startsWith_string_iff.mp h
  have whole : path = "" ++ "/" ++ String.ofList rest := String.toList_inj.mp (by simpa using eq.symm)
  exact ⟨elements (String.ofList rest), by rw [whole, elements_join]; rfl⟩

theorem isRooted_slash (path : String) : isRooted ("/" ++ path) = true :=
  String.startsWith_string_iff.mpr (by simp)

@[simp] theorem isRooted_placeText {rooted : Bool} {place : List String} (h : IsPlace rooted place) :
    isRooted (placeText rooted place) = rooted := by
  cases rooted with
  | true => exact isRooted_slash _
  | false =>
    rw [Bool.eq_false_iff]
    intro slash
    obtain ⟨rest, eq⟩ := elements_of_isRooted slash
    rw [elements_placeText h] at eq
    by_cases empty : place = []
    · simp [empty] at eq
    · have first : "" ∈ place := by
        rw [← List.mem_reverse]
        simp [show place.reverse = "" :: rest by simpa [empty] using eq]
      exact (h.readable "" first).1 rfl

/-- The text of a place leads to the place. -/
theorem placeOf_placeText {rooted : Bool} {place : List String} (h : IsPlace rooted place) :
    placeOf (placeText rooted place) = place := by
  rw [placeOf, isRooted_placeText h, elements_placeText h]
  by_cases empty : place = []
  · subst empty
    cases rooted <;> rfl
  · cases rooted <;> simpa [empty, enter] using h.foldl_reverse

/-- A place has one text. -/
theorem placeText_inj {rooted rooted' : Bool} {place place' : List String} (h : IsPlace rooted place)
    (h' : IsPlace rooted' place') :
    placeText rooted place = placeText rooted' place' ↔ rooted = rooted' ∧ place = place' := by
  constructor
  · intro same
    exact ⟨by rw [← isRooted_placeText h, same, isRooted_placeText h'],
      by rw [← placeOf_placeText h, same, placeOf_placeText h']⟩
  · rintro ⟨rfl, rfl⟩
    rfl

/-- A clean path stays as it is. -/
theorem cleanPath_placeText {rooted : Bool} {place : List String} (h : IsPlace rooted place) :
    cleanPath (placeText rooted place) = placeText rooted place := by
  rw [cleanPath, isRooted_placeText h, placeOf_placeText h]

/-! ## Going on from a place -/

theorem placeText_nil (rooted : Bool) : placeText rooted [] = if rooted then "/" else "." := by
  cases rooted <;> decide +kernel

/-- A path and more elements lead where the elements lead from the place of the path. -/
theorem isRooted_join {path : String} (nonempty : path ≠ "") (rest : String) :
    isRooted (path ++ "/" ++ rest) = isRooted path := by
  have first : ∃ c cs, path.toList = c :: cs := by
    cases h : path.toList with
    | nil => exact absurd (String.toList_inj.mp (h.trans rfl)) nonempty
    | cons c cs => exact ⟨c, cs, rfl⟩
  obtain ⟨c, cs, eq⟩ := first
  rw [Bool.eq_iff_iff, isRooted, isRooted, String.startsWith_string_iff, String.startsWith_string_iff]
  simp [eq, show ("/" : String).toList = ['/'] from rfl, List.cons_prefix_cons]

theorem placeOf_join {path : String} (nonempty : path ≠ "") (rest : String) :
    placeOf (path ++ "/" ++ rest) = (elements rest).foldl (enter (isRooted path)) (placeOf path) := by
  rw [placeOf, isRooted_join nonempty, elements_join, List.foldl_append, ← placeOf]

end WholeProgram
