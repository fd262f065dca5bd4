import WholeProgram.Files.Tree
import WholeProgram.Proofs.Log
import WholeProgram.Proofs.Files.Path

/-!
# Reading what was written

The place that a path leads to in a tree is the place that its text says. A file that was created can be
read, with its content; whatever else is created or made later, it can still be read, and only the file
that is written gets another content.
-/

namespace WholeProgram.FileTree

variable {t t' : FileTree} {path text place : String}

/-! ## Places in a tree -/

theorem inside_placeText {rooted : Bool} {place : List String} (h : IsPlace rooted place) {element : String}
    (name : IsName element) : inside (placeText rooted place) element = placeText rooted (element :: place) := by
  have working : placeText rooted place = "." ↔ rooted = false ∧ place = [] := by
    simpa [placeText_nil] using placeText_inj h (.nil false)
  have root : placeText rooted place = "/" ↔ rooted = true ∧ place = [] := by
    simpa [placeText_nil] using placeText_inj h (.nil true)
  simp only [inside, beq_iff_eq, working, root]
  by_cases empty : place = []
  · subst empty
    cases rooted <;> simp [placeText, name.1]
  · have joined : "/".intercalate (place.reverse ++ [element]) = "/".intercalate place.reverse ++ "/" ++ element := by
      rw [String.intercalate_append_of_ne_nil (by simpa using empty) (by simp), String.intercalate_singleton]
    cases rooted with
    | true => simp [placeText, empty, joined, String.append_assoc]
    | false =>
      have above : "/".intercalate place.reverse ≠ "" := fun blank => by
        simpa [placeText, blank] using mt working.mp (by simp [empty])
      simp [placeText, empty, above, joined]

theorem above_placeText {rooted : Bool} {place : List String} (h : IsPlace rooted place) :
    above (placeText rooted place) = placeText rooted (enter rooted place "..") := by
  have nonempty : placeText rooted place ≠ "" := by
    unfold placeText
    cases rooted with
    | true => simp
    | false => simp only [Bool.false_eq_true, if_false]; split <;> simp_all
  rw [above, show ("/.." : String) = "/" ++ ".." from rfl, ← String.append_assoc, cleanPath, isRooted_join nonempty,
    placeOf_join nonempty, isRooted_placeText h, placeOf_placeText h]
  rfl

/-! ## Following a path -/

theorem isName_of_not_step {element : String} (step : isStep element = false) (plain : '/' ∉ element.toList) :
    IsName element := by
  obtain ⟨⟨nonempty, notHere⟩, notUp⟩ : (element ≠ "" ∧ element ≠ ".") ∧ element ≠ ".." := by
    simpa [isStep] using step
  exact ⟨nonempty, notHere, notUp, plain⟩

/-- One element leads from a directory to a place. -/
inductive Enters (t : FileTree) (place : String) : String → String → Prop where
  | stay {element : String} (h : element = "" ∨ element = ".") : Enters t place element place
  | up : Enters t place ".." (above place)
  | down {element : String} (name : isStep element = false) (short : element.utf8ByteSize ≤ maxNameBytes)
    (there : t.isDir (inside place element) = true ∨ t.isFile (inside place element) = true) :
    Enters t place element (inside place element)

/-- A path is followed one element after the other, from directory to directory. -/
theorem follow_cons_eq_ok {e : String} {es : List String} {q : String} :
    t.follow place (e :: es) = .ok q ↔
      t.isDir place = true ∧ ∃ next, t.Enters place e next ∧ t.follow next es = .ok q := by
  constructor
  · intro ok
    rw [follow] at ok
    split at ok
    · cases ok
    next dir =>
    refine ⟨by simpa using dir, ?_⟩
    split at ok
    next stay => exact ⟨place, .stay (by simpa using stay), ok⟩
    next on =>
    split at ok
    next up =>
      obtain rfl : e = ".." := by simpa using up
      exact ⟨above place, .up, ok⟩
    next notUp =>
    split at ok
    · cases ok
    next short =>
    by_cases there : t.isDir (inside place e) = true ∨ t.isFile (inside place e) = true
    · exact ⟨inside place e, .down (by simpa [isStep, and_assoc] using And.intro on notUp) (by omega) there,
        by simpa [there] using ok⟩
    · simp [there] at ok
  · rintro ⟨dir, next, enters, ok⟩
    cases enters with
    | stay h => rcases h with rfl | rfl <;> simpa [follow, dir] using ok
    | up => simpa [follow, dir] using ok
    | down name short there =>
      obtain ⟨⟨nonempty, notHere⟩, notUp⟩ : (e ≠ "" ∧ e ≠ ".") ∧ e ≠ ".." := by simpa [isStep] using name
      simpa [follow, dir, nonempty, notHere, notUp, there, show ¬maxNameBytes < e.utf8ByteSize by omega] using ok

theorem follow_append {es es' : List String} {q : String} :
    t.follow place (es ++ es') = .ok q ↔ ∃ next, t.follow place es = .ok next ∧ t.follow next es' = .ok q := by
  induction es generalizing place with
  | nil => simp [follow]
  | cons e es ih =>
    simp only [List.cons_append, follow_cons_eq_ok, ih]
    constructor
    · rintro ⟨dir, next, enters, next', first, second⟩
      exact ⟨next', ⟨dir, next, enters, first⟩, second⟩
    · rintro ⟨next', ⟨dir, next, enters, first⟩, second⟩
      exact ⟨dir, next, enters, next', first, second⟩

/-- An element leads where its text leads. -/
theorem Enters.placeText {rooted : Bool} {place : List String} (h : IsPlace rooted place) {e next : String}
    (plain : '/' ∉ e.toList) (enters : t.Enters (placeText rooted place) e next) :
    next = WholeProgram.placeText rooted (enter rooted place e) := by
  cases enters with
  | stay h => rcases h with rfl | rfl <;> simp [enter]
  | up => exact above_placeText h
  | down step =>
    have name := isName_of_not_step step plain
    rw [inside_placeText h name, enter_name name]

/-- Following elements leads where their text leads. -/
theorem follow_placeText {rooted : Bool} {place : List String} (h : IsPlace rooted place) {es : List String}
    (plain : ∀ e ∈ es, '/' ∉ e.toList) {q : String} (ok : t.follow (placeText rooted place) es = .ok q) :
    q = placeText rooted (es.foldl (enter rooted) place) := by
  induction es generalizing place with
  | nil => simpa [follow] using ok.symm
  | cons e es ih =>
    obtain ⟨-, next, enters, ok⟩ := follow_cons_eq_ok.mp ok
    have plainHead := plain e List.mem_cons_self
    rw [enters.placeText h plainHead] at ok
    exact ih (h.enter plainHead) (fun e' h' => plain e' (List.mem_cons_of_mem _ h')) ok

theorem beginning_eq_ok {start : String} (ok : beginning path = .ok start) : start = placeText (isRooted path) [] := by
  rw [beginning] at ok
  rw [placeText_nil]
  split at ok
  · cases ok
  split at ok
  · cases ok
  split at ok
  · cases ok
  exact (Except.ok.inj ok).symm

theorem locate_eq_ok {q : String} :
    t.locate path = .ok q ↔ ∃ start, beginning path = .ok start ∧ t.follow start (elements path) = .ok q :=
  bind_eq_ok

/-- A path leads to the place that its text says. -/
theorem locate_eq_cleanPath {q : String} (ok : t.locate path = .ok q) : q = cleanPath path := by
  obtain ⟨start, begins, ok⟩ := locate_eq_ok.mp ok
  rw [beginning_eq_ok begins] at ok
  exact follow_placeText (.nil _) (fun e h => not_slash_of_mem_elements h) ok

/-! ## More files and directories -/

/-- Everything that is in one tree is in the other. -/
structure Extends (t t' : FileTree) : Prop where
  dirs : ∀ {place}, t.isDir place = true → t'.isDir place = true
  files : ∀ {place}, t.isFile place = true → t'.isFile place = true

theorem Extends.refl (t : FileTree) : Extends t t := ⟨id, id⟩

theorem Extends.trans {t'' : FileTree} (h : Extends t t') (h' : Extends t' t'') : Extends t t'' :=
  ⟨fun d => h'.dirs (h.dirs d), fun f => h'.files (h.files f)⟩

theorem Extends.follow (le : Extends t t') {es : List String} {q : String} (ok : t.follow place es = .ok q) :
    t'.follow place es = .ok q := by
  induction es generalizing place with
  | nil => exact ok
  | cons e es ih =>
    obtain ⟨dir, next, enters, ok⟩ := follow_cons_eq_ok.mp ok
    refine follow_cons_eq_ok.mpr ⟨le.dirs dir, next, ?_, ih ok⟩
    cases enters with
    | stay h => exact .stay h
    | up => exact .up
    | down name short there => exact .down name short (there.imp le.dirs le.files)

theorem read_eq_ok : t.read path = .ok text ↔ ∃ q, t.locate path = .ok q ∧ t.content? q = some text := by
  unfold read
  cases t.locate path with
  | error fault => simp
  | ok q => cases h : t.content? q <;> simp [h]

/-- What could be read can be read as long as its own content stays. -/
theorem Extends.read (le : Extends t t') (same : t'.content? (cleanPath path) = t.content? (cleanPath path))
    (ok : t.read path = .ok text) : t'.read path = .ok text := by
  obtain ⟨q, located, content⟩ := read_eq_ok.mp ok
  obtain rfl := locate_eq_cleanPath located
  obtain ⟨start, begins, followed⟩ := locate_eq_ok.mp located
  exact read_eq_ok.mpr ⟨_, locate_eq_ok.mpr ⟨start, begins, le.follow followed⟩, same.trans content⟩

/-! ## Directories -/

@[simp] theorem content?_putDir (place q : String) : (t.putDir place).content? q = t.content? q := by
  unfold putDir
  split <;> rfl

theorem extends_putDir (place : String) : Extends t (t.putDir place) := by
  constructor
  · intro q dir
    unfold putDir
    split
    · exact dir
    · simp only [isDir, List.contains_cons] at dir ⊢
      grind
  · intro q file
    simpa [isFile] using file

/-- Making a directory adds directories only. -/
structure AddsDirs (t t' : FileTree) : Prop where
  grows : Extends t t'
  content : ∀ q, t'.content? q = t.content? q

theorem AddsDirs.refl (t : FileTree) : AddsDirs t t := ⟨.refl t, fun _ => rfl⟩

theorem AddsDirs.trans {t'' : FileTree} (h : AddsDirs t t') (h' : AddsDirs t' t'') : AddsDirs t t'' :=
  ⟨h.grows.trans h'.grows, fun q => (h'.content q).trans (h.content q)⟩

theorem addsDirs_makeLast {dir place : String} (ok : t.makeLast path dir = .ok (t', place)) : AddsDirs t t' := by
  obtain ⟨start, -, ok⟩ := bind_eq_ok.mp ok
  dsimp only at ok
  split at ok
  · cases ok
    exact .refl t
  split at ok
  · cases ok
    exact .refl t
  split at ok
  · cases ok
  split at ok
  · cases ok
    exact .refl t
  split at ok
  · cases ok
  cases ok
  exact ⟨extends_putDir _, fun q => content?_putDir _ q⟩

theorem addsDirs_makeDirs {fuel : Nat} {dir : String} (ok : t.makeDirs fuel path = .ok (t', dir)) : AddsDirs t t' := by
  induction fuel generalizing t' path dir with
  | zero =>
    cases ok
    exact .refl t
  | succ fuel ih =>
    rw [makeDirs] at ok
    split at ok
    · split at ok
      · cases ok
        exact .refl t
      · cases ok
    · dsimp only at ok
      split at ok
      · obtain ⟨made, eq, ok⟩ := bind_eq_ok.mp ok
        cases eq
        exact addsDirs_makeLast (mapError_eq_ok.mp ok)
      · obtain ⟨made, eq, ok⟩ := bind_eq_ok.mp ok
        exact (ih eq).trans (addsDirs_makeLast (mapError_eq_ok.mp ok))

theorem addsDirs_makeDir (ok : t.makeDir path = .ok t') : AddsDirs t t' := by
  unfold makeDir at ok
  obtain ⟨made, madeDirs, rfl⟩ := map_eq_ok.mp ok
  exact addsDirs_makeDirs madeDirs

/-! ## Files -/

theorem lookup_replace_self {fs : List (String × String)} (h : (fs.lookup place).isSome = true) (text : String) :
    (fs.map fun f => if f.1 == place then (place, text) else f).lookup place = some text := by
  induction fs with
  | nil => simp at h
  | cons f fs ih =>
    by_cases here : f.1 = place
    · simp [here]
    · obtain ⟨there, content⟩ := f
      have other : (place == there) = false := by simpa using Ne.symm here
      rw [List.lookup_cons, other] at h
      simpa [show there ≠ place from here, List.lookup_cons, other] using ih h

theorem lookup_replace_other {q : String} (h : q ≠ place) (fs : List (String × String)) (text : String) :
    (fs.map fun f => if f.1 == place then (place, text) else f).lookup q = fs.lookup q := by
  have other : (q == place) = false := by simpa using h
  induction fs with
  | nil => rfl
  | cons f fs ih =>
    obtain ⟨there, content⟩ := f
    by_cases here : there = place
    · subst here
      simpa [List.lookup_cons, other] using ih
    · simp only [List.map_cons, beq_iff_eq, here, if_false, List.lookup_cons]
      split
      · rfl
      · simpa using ih

/-- Writing a file changes its content and no other. -/
theorem content?_putFile (real : place ≠ nullDevice) (text q : String) :
    (t.putFile place text).content? q = if q = place then some text else t.content? q := by
  have device : (nullDevice = place) = False := by simpa using real.symm
  by_cases null : q = nullDevice
  · simp [content?, null, device]
  · unfold putFile
    simp only [beq_iff_eq, real, if_false]
    split
    next file =>
      have there : (t.files.lookup place).isSome = true := by
        simpa only [isFile, content?, beq_iff_eq, real, if_false] using file
      by_cases asked : q = place
      · subst asked
        simpa [content?, null] using lookup_replace_self there text
      · simpa [content?, null, asked] using lookup_replace_other asked t.files text
    next file =>
      have fresh : t.files.lookup place = none := by
        simpa only [isFile, content?, beq_iff_eq, real, if_false, Option.not_isSome_iff_eq_none] using file
      by_cases asked : q = place
      · simp [content?, asked, real, List.lookup_append, fresh]
      · simp [content?, null, asked, List.lookup_append, List.lookup_cons,
          show (q == place) = false by simpa using asked]

theorem extends_putFile (place text : String) : Extends t (t.putFile place text) := by
  by_cases real : place = nullDevice
  · simpa [putFile, real] using Extends.refl t
  · constructor
    · intro q dir
      unfold putFile
      simp only [beq_iff_eq, real, if_false]
      split <;> exact dir
    · intro q file
      unfold isFile at file ⊢
      rw [content?_putFile real]
      split
      · rfl
      · exact file

/-! ## Creating a file -/

theorem trimmed_eq (noSlash : path.endsWith "/" = false) : trimmed path = path := by
  have lastOther : ¬ "/".toList <:+ path.toList := by
    rw [← Bool.not_eq_true, String.endsWith_eq_endsWith_toSlice, String.Slice.endsWith_string_iff] at noSlash
    simpa using noSlash
  have kept : path.toList.reverse.dropWhile (· == '/') = path.toList.reverse := by
    cases h : path.toList.reverse with
    | nil => rfl
    | cons c cs =>
      have other : c ≠ '/' := fun same => lastOther ⟨cs.reverse, by
        simpa [same] using (congrArg List.reverse h).symm⟩
      simp [other]
  rw [trimmed, kept, List.reverse_reverse, String.ofList_toList]

/-- An element that is asked to be a directory stands for the place itself. -/
theorem follow_empty {q : String} : t.follow place [""] = .ok q ↔ t.isDir place = true ∧ q = place := by
  cases dir : t.isDir place with
  | true => simpa [follow, dir] using eq_comm
  | false => simp [follow, dir]

theorem elements_eq_concat (noSlash : path.endsWith "/" = false) :
    elements path = (elements path).dropLast ++ [lastElement path] := by
  rw [lastElement, trimmed_eq noSlash, List.getLastD_eq_getLast?,
    List.getLast?_eq_some_getLast (elements_ne_nil path), Option.getD_some, List.dropLast_concat_getLast]

/-- The place of a path is in the one of its directory. -/
theorem inside_eq_cleanPath {dirs : List String} {name : String} (parts : elements path = dirs ++ [name])
    (isName : IsName name) :
    inside (placeText (isRooted path) (dirs.foldl (enter (isRooted path)) [])) name = cleanPath path := by
  have plain : ∀ e ∈ dirs, '/' ∉ e.toList := fun e h =>
    not_slash_of_mem_elements (parts ▸ List.mem_append_left _ h)
  rw [inside_placeText (IsPlace.foldl_enter plain (.nil _)) isName, cleanPath, placeOf, parts, List.foldl_append]
  simp [enter_name isName]

/-- A file is created at the place that its path says, and it can be read. -/
theorem create_eq_ok (ok : t.create path text = .ok t') :
    t' = t.putFile (cleanPath path) text ∧ (cleanPath path ≠ nullDevice → t'.read path = .ok text) := by
  obtain ⟨start, begins, ok⟩ := bind_eq_ok.mp ok
  obtain ⟨dir, toDir, ok⟩ := bind_eq_ok.mp ok
  dsimp only at ok
  split at ok
  · cases ok
  next isFileName =>
  split at ok
  · cases ok
  next short =>
  split at ok
  · cases ok
  next noDir =>
  obtain ⟨step, noSlash⟩ : isStep (lastElement path) = false ∧ path.endsWith "/" = false := by
    simpa using isFileName
  rw [trimmed_eq noSlash] at toDir
  have parts := elements_eq_concat noSlash
  generalize lastElement path = name at *
  generalize (elements path).dropLast = dirs at *
  have plain : ∀ e ∈ dirs ++ [name], '/' ∉ e.toList := fun e h => not_slash_of_mem_elements (parts ▸ h)
  obtain ⟨plainDirs, plainName⟩ := List.forall_mem_append.mp plain
  obtain ⟨next, toNext, last⟩ := follow_append.mp toDir
  obtain ⟨isDir, rfl⟩ := follow_empty.mp last
  have atDir : dir = placeText (isRooted path) (dirs.foldl (enter (isRooted path)) []) :=
    follow_placeText (.nil _) plainDirs (beginning_eq_ok begins ▸ toNext)
  have here : inside dir name = cleanPath path := by
    rw [atDir]
    exact inside_eq_cleanPath parts (isName_of_not_step step (plainName name List.mem_cons_self))
  rw [here] at ok
  cases ok
  refine ⟨rfl, fun real => ?_⟩
  have grows : Extends t (t.putFile (cleanPath path) text) := extends_putFile _ _
  have content : (t.putFile (cleanPath path) text).content? (cleanPath path) = some text := by
    rw [content?_putFile real, if_pos rfl]
  have enters : (t.putFile (cleanPath path) text).Enters dir name (cleanPath path) := by
    rw [← here] at content ⊢
    exact .down step (by omega) (.inr (by simp [isFile, content]))
  refine read_eq_ok.mpr ⟨cleanPath path, locate_eq_ok.mpr ⟨start, begins, ?_⟩, content⟩
  rw [parts]
  exact follow_append.mpr ⟨dir, grows.follow toNext, follow_cons_eq_ok.mpr ⟨grows.dirs isDir, _, enters, rfl⟩⟩

end WholeProgram.FileTree
