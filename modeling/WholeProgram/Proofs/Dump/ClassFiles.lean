import Mathlib.Data.List.Infix
import WholeProgram.Dump.ClassFile
import WholeProgram.Proofs.Files.Tree

/-!
# Where classes are written, and what stays

Whatever the name of a class is, its file is below the output directory: the name is cut into names of
files and directories, and no step up is left in it. Different names may be cut into the same file. The
class that is written last is the one whose text stays, so that a dump keeps all classes when the classes
that share a file have the same text, and in particular when all names can be names of files as they are.

* `classFile_eq` — the file of a class, as a place;
* `strictlyBelow_classFile` — it is below the directory;
* `writeClasses_read` — what can be read after a dump;
* `writeProgram_keeps_classes` — when a dump keeps all classes.
-/

namespace WholeProgram.Dump

/-! ## Names without steps -/

theorem dot_prefix_of_replaceDots {cs : List Char} (h : ['.'] <+: replaceDots cs) : ['.'] <+: cs := by
  fun_cases replaceDots cs with
  | case1 rest => exact ⟨'.' :: rest, rfl⟩
  | case2 c rest other =>
    rw [replaceDots.eq_2 _ _ other] at h
    simpa using h
  | case3 => exact h

/-- No two dots follow each other once they are replaced. -/
theorem not_two_dots_replaceDots (cs : List Char) : ¬ ['.', '.'] <:+: replaceDots cs := by
  fun_induction replaceDots cs with
  | case1 rest ih =>
    rw [List.infix_cons_iff]
    rintro (first | later)
    · simp at first
    · exact ih later
  | case2 c rest other ih =>
    rw [List.infix_cons_iff]
    rintro (first | later)
    · obtain ⟨rfl, next⟩ := List.cons_prefix_cons.mp first
      obtain ⟨rest', rfl⟩ := dot_prefix_of_replaceDots next
      exact other rest' rfl rfl
    · exact ih later
  | case3 => simp

theorem trimSlashes_prefix_dropWhile (cs : List Char) : trimSlashes cs <+: cs.dropWhile (· == '/') := by
  rw [trimSlashes, ← List.reverse_suffix, List.reverse_reverse]
  exact List.dropWhile_suffix _

theorem isInfix_trimSlashes (cs : List Char) : trimSlashes cs <:+: cs :=
  (trimSlashes_prefix_dropWhile cs).isInfix.trans (List.dropWhile_suffix _).isInfix

/-- No slash is left at the beginning. -/
theorem not_slash_prefix_trimSlashes (cs : List Char) : ¬ ['/'] <+: trimSlashes cs := by
  intro slash
  obtain ⟨rest, eq⟩ := slash.trans (trimSlashes_prefix_dropWhile cs)
  have := List.head?_dropWhile_not (· == '/') cs
  simp [← eq] at this

theorem not_two_dots_fileStem (name : String) : ¬ ['.', '.'] <:+: (fileStem name).toList := by
  rw [fileStem, String.toList_ofList]
  exact fun h => not_two_dots_replaceDots _ (h.trans (isInfix_trimSlashes _))

/-! ## The file of a class as a place -/

/-- The path of the file of a class from the output directory. -/
def filePath (name : String) : String := fileStem name ++ ".ir"

/-- The directories and the file that a class name is cut into. -/
def fileNames (name : String) : List String := (elements (filePath name)).filter fun e => e ≠ "" ∧ e ≠ "."

/-- The extension belongs to the last element. -/
theorem elements_filePath (name : String) : ∃ last, elements (filePath name) =
    (elements (fileStem name)).dropLast ++ [last ++ ".ir"] :=
  ⟨_, elements_append (by decide)⟩

/-- An element with the extension is neither empty nor a step. -/
theorem extended_ne (last : String) : last ++ ".ir" ≠ "" ∧ last ++ ".ir" ≠ "." ∧ last ++ ".ir" ≠ ".." := by
  have long : 3 ≤ (last ++ ".ir").length := by
    rw [String.length_append]
    exact Nat.le_add_left 3 _
  refine ⟨?_, ?_, ?_⟩ <;> exact fun same => absurd (same ▸ long) (by decide)

theorem ne_up_of_mem_elements {name e : String} (h : e ∈ elements (filePath name)) : e ≠ ".." := by
  obtain ⟨last, parts⟩ := elements_filePath name
  rw [parts, List.mem_append, List.mem_singleton] at h
  rcases h with h | rfl
  · rintro rfl
    exact not_two_dots_fileStem name (infix_of_mem_elements (List.dropLast_subset _ h))
  · exact (extended_ne last).2.2

theorem isName_of_mem_fileNames {name e : String} (h : e ∈ fileNames name) : IsName e := by
  obtain ⟨member, nonempty, notHere⟩ : e ∈ elements (filePath name) ∧ e ≠ "" ∧ e ≠ "." := by
    simpa [fileNames] using h
  exact ⟨nonempty, notHere, ne_up_of_mem_elements member, not_slash_of_mem_elements member⟩

theorem fileNames_eq_concat (name : String) : ∃ dirs last, fileNames name = dirs ++ [last ++ ".ir"] := by
  obtain ⟨last, parts⟩ := elements_filePath name
  have kept : [last ++ ".ir"].filter (fun e => e ≠ "" ∧ e ≠ ".") = [last ++ ".ir"] := by
    simp [extended_ne last]
  exact ⟨_, last, by rw [fileNames, parts, List.filter_append, kept]⟩

theorem fileNames_ne_nil (name : String) : fileNames name ≠ [] := by
  obtain ⟨dirs, last, eq⟩ := fileNames_eq_concat name
  simp [eq]

theorem isRooted_filePath (name : String) : isRooted (filePath name) = false := by
  have start : ¬ ['/'] <+: (fileStem name).toList := by
    rw [fileStem, String.toList_ofList]
    exact not_slash_prefix_trimSlashes _
  rw [Bool.eq_false_iff, isRooted]
  intro slash
  rw [String.startsWith_string_iff] at slash
  cases stem : (fileStem name).toList with
  | nil => simp [filePath, stem] at slash
  | cons c cs =>
    have first : '/' = c := by simpa [filePath, stem] using slash
    exact start ⟨cs, by simpa [stem] using first⟩

/-- Elements without steps up lead down to the names among them. -/
theorem foldl_enter_of_ne_up {rooted : Bool} {es : List String} (h : ∀ e ∈ es, e ≠ "..") (place : List String) :
    es.foldl (enter rooted) place = (es.filter fun e => e ≠ "" ∧ e ≠ ".").reverse ++ place := by
  induction es generalizing place with
  | nil => rfl
  | cons e es ih =>
    have notUp := h e List.mem_cons_self
    rw [List.foldl_cons, ih fun e' h' => h e' (List.mem_cons_of_mem _ h')]
    by_cases stay : e = "" ∨ e = "."
    · rcases stay with rfl | rfl <;> simp [enter]
    · obtain ⟨nonempty, notHere⟩ := not_or.mp stay
      simp [enter, nonempty, notHere, notUp]

theorem classFile_eq (dir name : String) :
    classFile dir name = placeText (isRooted dir) ((fileNames name).reverse ++ placeOf dir) := by
  have nonempty : filePath name ≠ "" := by simp [filePath]
  have down (place : List String) : (elements (filePath name)).foldl (enter (isRooted dir)) place =
      (fileNames name).reverse ++ place := foldl_enter_of_ne_up (fun _ => ne_up_of_mem_elements) place
  change joinPath [dir, filePath name] = _
  by_cases working : dir = ""
  · subst working
    have joined : joinPath ["", filePath name] = cleanPath (filePath name) := by simp [joinPath, nonempty]
    rw [joined, cleanPath, placeOf, isRooted_filePath]
    exact congrArg (placeText false) (down [])
  · have joined : joinPath [dir, filePath name] = cleanPath (dir ++ "/" ++ filePath name) := by
      simp [joinPath, nonempty, working, String.intercalate_cons_cons]
    rw [joined, cleanPath, isRooted_join working, placeOf_join working, down]

theorem isPlace_classFile (dir name : String) :
    IsPlace (isRooted dir) ((fileNames name).reverse ++ placeOf dir) := by
  have names : ∀ e ∈ (fileNames name).reverse, IsName e := fun e h => isName_of_mem_fileNames (List.mem_reverse.mp h)
  generalize (fileNames name).reverse = up at names
  induction up with
  | nil => exact isPlace_placeOf dir
  | cons e up ih =>
    exact .name (names e List.mem_cons_self) (ih fun e' h => names e' (List.mem_cons_of_mem _ h))

/-- The file of a class is given as a clean path. -/
theorem cleanPath_classFile (dir name : String) : cleanPath (classFile dir name) = classFile dir name := by
  rw [classFile_eq, cleanPath_placeText (isPlace_classFile dir name)]

/-- The directory does not matter for which classes share a file. -/
theorem classFile_eq_iff {dir name name' : String} :
    classFile dir name = classFile dir name' ↔ fileNames name = fileNames name' := by
  rw [classFile_eq, classFile_eq, placeText_inj (isPlace_classFile dir name) (isPlace_classFile dir name')]
  simp

theorem classFile_ne_nullDevice (dir name : String) : classFile dir name ≠ nullDevice := by
  have isPlace : IsPlace true ["null", "dev"] :=
    .name (by unfold IsName; decide) (.name (by unfold IsName; decide) (.nil true))
  have device : nullDevice = placeText true ["null", "dev"] := by decide +kernel
  rw [classFile_eq, device, Ne, placeText_inj (isPlace_classFile dir name) isPlace]
  rintro ⟨-, same⟩
  obtain ⟨dirs, last, eq⟩ := fileNames_eq_concat name
  rw [eq, List.reverse_append, List.reverse_singleton, List.singleton_append, List.cons_append] at same
  have ending := congrArg (fun s : String => s.toList.getLast?) (List.cons.inj same).1
  simp at ending

/-! ## Below the output directory -/

/-- A path leads strictly below a directory: from the place of the directory, names lead on to that of the
path. -/
def StrictlyBelow (path dir : String) : Prop :=
  isRooted path = isRooted dir ∧ ∃ names, names ≠ [] ∧ (∀ e ∈ names, IsName e) ∧
    cleanPath path = names.foldl FileTree.inside (cleanPath dir)

theorem foldl_inside_placeText {rooted : Bool} {place names : List String} (h : IsPlace rooted place)
    (isName : ∀ e ∈ names, IsName e) :
    names.foldl FileTree.inside (placeText rooted place) = placeText rooted (names.reverse ++ place) := by
  induction names generalizing place with
  | nil => rfl
  | cons e names ih =>
    have first := isName e List.mem_cons_self
    rw [List.foldl_cons, FileTree.inside_placeText h first,
      ih (.name first h) fun e' h' => isName e' (List.mem_cons_of_mem _ h')]
    simp

/-- The file of a class is below the output directory, whatever the directory and the class are called. -/
theorem strictlyBelow_classFile (dir name : String) : StrictlyBelow (classFile dir name) dir := by
  refine ⟨?_, fileNames name, fileNames_ne_nil name, fun _ => isName_of_mem_fileNames, ?_⟩
  · rw [classFile_eq, isRooted_placeText (isPlace_classFile dir name)]
  · rw [cleanPath_classFile, classFile_eq, cleanPath,
      foldl_inside_placeText (isPlace_placeOf dir) fun _ => isName_of_mem_fileNames]

/-! ## What a dump leaves -/

variable {p : Program} {dir : String} {t t' : FileTree}

/-- Writing a file into its directory changes that file and no other, and everything stays readable. -/
theorem write_into_directory {path parent text : String} {t₁ t₂ : FileTree} (made : makeDir t parent = .ok t₁)
    (wrote : writeFile t₁ path text = .ok t₂) (clean : cleanPath path = path) (real : path ≠ nullDevice) :
    FileTree.Extends t t₂ ∧ (∀ q, t₂.content? q = if q = path then some text else t.content? q) ∧
      t₂.read path = .ok text := by
  rw [makeDir] at made
  rw [writeFile] at wrote
  have adds := FileTree.addsDirs_makeDir (mapError_eq_ok.mp made)
  obtain ⟨rfl, readable⟩ := FileTree.create_eq_ok (mapError_eq_ok.mp (mapError_eq_ok.mp wrote))
  rw [clean] at readable ⊢
  refine ⟨adds.grows.trans (FileTree.extends_putFile _ _), fun q => ?_, readable real⟩
  rw [FileTree.content?_putFile real, adds.content]

/-- The class that is written last into a file is the one that is read from it. Other files stay. -/
theorem writeClasses_read {cs : List ClassId} (h : writeClasses p dir cs t = (t', none)) :
    FileTree.Extends t t' ∧
    (∀ q, (∀ c ∈ cs, classFile dir (p.className c) ≠ q) → t'.content? q = t.content? q) ∧
    ∀ c ∈ cs, ∃ before d after, cs = before ++ d :: after ∧
      classFile dir (p.className d) = classFile dir (p.className c) ∧
      (∀ e ∈ after, classFile dir (p.className e) ≠ classFile dir (p.className c)) ∧
      t'.read (classFile dir (p.className c)) = .ok (classText p d) := by
  induction cs generalizing t with
  | nil =>
    have same : t = t' := by simpa [writeClasses] using h
    subst same
    exact ⟨.refl t, fun _ _ => rfl, fun c none => absurd none List.not_mem_nil⟩
  | cons c cs ih =>
    rw [writeClasses] at h
    split at h
    · cases h
    next t₁ made =>
    split at h
    · cases h
    next t₂ wrote =>
    obtain ⟨grows, content, readable⟩ := write_into_directory made wrote (cleanPath_classFile _ _)
      (classFile_ne_nullDevice _ _)
    obtain ⟨later, others, files⟩ := ih h
    refine ⟨grows.trans later, fun q apart => ?_, fun x member => ?_⟩
    · rw [others q fun d hd => apart d (List.mem_cons_of_mem _ hd), content,
        if_neg (apart c List.mem_cons_self).symm]
    · by_cases again : ∃ d ∈ cs, classFile dir (p.className d) = classFile dir (p.className x)
      · obtain ⟨d, hd, same⟩ := again
        obtain ⟨before, e, after, rfl, shares, last, readable⟩ := files d hd
        exact ⟨c :: before, e, after, rfl, shares.trans same, same ▸ last, same ▸ readable⟩
      · have last : ∀ d ∈ cs, classFile dir (p.className d) ≠ classFile dir (p.className x) :=
          fun d hd same => again ⟨d, hd, same⟩
        obtain rfl : x = c := (List.mem_cons.mp member).resolve_right fun hx => last x hx rfl
        refine ⟨[], x, cs, rfl, rfl, last, later.read ?_ readable⟩
        rw [cleanPath_classFile, others _ last]

/-! ## Names that are kept -/

/-- A class name that can be the path of a file as it is. -/
structure Plain (name : String) : Prop where
  chars : ∀ c ∈ name.toList, isPathChar c = true
  names : ∀ e ∈ elements name, IsName e
  noTwoDots : ¬ ['.', '.'] <:+: name.toList

theorem replaceDots_eq {cs : List Char} (h : ¬ ['.', '.'] <:+: cs) : replaceDots cs = cs := by
  fun_induction replaceDots cs with
  | case1 rest => exact absurd ⟨[], rest, rfl⟩ h
  | case2 c rest other ih => rw [ih fun inside => h (inside.trans (List.suffix_cons c rest).isInfix)]
  | case3 => rfl

theorem trimSlashes_eq {cs : List Char} (first : ¬ ['/'] <+: cs) (last : ¬ ['/'] <:+ cs) : trimSlashes cs = cs := by
  have stays {l : List Char} (h : ¬ ['/'] <+: l) : l.dropWhile (· == '/') = l := by
    cases l with
    | nil => rfl
    | cons c l =>
      have other : c ≠ '/' := fun same => h ⟨l, by simp [same]⟩
      simp [other]
  rw [trimSlashes, stays first, stays (by rwa [← List.reverse_singleton, List.reverse_prefix]), List.reverse_reverse]

theorem Plain.fileStem {name : String} (h : Plain name) : fileStem name = name := by
  have named (before after : String) (eq : name = before ++ "/" ++ after) :
      "" ∉ elements before ++ elements after := by
    intro member
    rw [← elements_join, ← eq] at member
    exact (h.names "" member).1 rfl
  have first : ¬ ['/'] <+: name.toList := by
    rintro ⟨rest, eq⟩
    refine named "" (String.ofList rest) (String.toList_inj.mp ?_) (by simp [elements])
    simpa using eq.symm
  have last : ¬ ['/'] <:+ name.toList := by
    rintro ⟨rest, eq⟩
    refine named (String.ofList rest) "" (String.toList_inj.mp ?_) (by simp [elements])
    simpa using eq.symm
  have kept : (name.toList.map fun c => if isPathChar c then c else '_') = name.toList :=
    List.map_congr_left (fun c member => if_pos (h.chars c member)) |>.trans (List.map_id _)
  rw [Dump.fileStem, kept, replaceDots_eq h.noTwoDots, trimSlashes_eq first last, String.ofList_toList]

theorem Plain.fileNames {name : String} (h : Plain name) : fileNames name = elements (filePath name) := by
  refine List.filter_eq_self.mpr fun e member => ?_
  obtain ⟨last, parts⟩ := elements_filePath name
  rw [parts, List.mem_append, List.mem_singleton, h.fileStem] at member
  rcases member with inner | rfl
  · have isName := h.names e (List.dropLast_subset _ inner)
    simp [isName.1, isName.2.1]
  · simp [extended_ne last]

instance (element : String) : Decidable (IsName element) :=
  inferInstanceAs (Decidable (element ≠ "" ∧ element ≠ "." ∧ element ≠ ".." ∧ '/' ∉ element.toList))

instance (name : String) : Decidable (Plain name) :=
  decidable_of_iff (name.toList.all isPathChar = true ∧ (∀ e ∈ elements name, IsName e) ∧
      ¬ ['.', '.'] <:+: name.toList)
    ⟨fun ⟨chars, names, dots⟩ => ⟨List.all_eq_true.mp chars, names, dots⟩,
      fun h => ⟨List.all_eq_true.mpr h.chars, h.names, h.noTwoDots⟩⟩

/-- Different plain names have different files. -/
theorem Plain.classFile_inj {name name' : String} (h : Plain name) (h' : Plain name')
    (same : classFile dir name = classFile dir name') : name = name' := by
  rw [classFile_eq_iff, h.fileNames, h'.fileNames] at same
  have paths : filePath name = filePath name' := elements_injective same
  rw [filePath, filePath, h.fileStem, h'.fileStem] at paths
  exact String.toList_inj.mp (by simpa using congrArg String.toList paths)

/-! ## All classes of a program -/

/-- What is read from the file of a class is the text of the last class with this file. -/
theorem writeProgram_read (h : writeProgram p dir t = (t', none)) {c : ClassId} (known : c < p.classes.size) :
    ∃ d < p.classes.size, classFile dir (p.className d) = classFile dir (p.className c) ∧
      (∀ e < p.classes.size, d < e → classFile dir (p.className e) ≠ classFile dir (p.className c)) ∧
      t'.read (classFile dir (p.className c)) = .ok (classText p d) := by
  obtain ⟨before, d, after, all, shares, last, readable⟩ := (writeClasses_read h).2.2 c (List.mem_range.mpr known)
  have member (x : ClassId) : x < p.classes.size ↔ x ∈ before ∨ x = d ∨ x ∈ after := by
    rw [← List.mem_range, all, List.mem_append, List.mem_cons]
  refine ⟨d, (member d).mpr (.inr (.inl rfl)), shares, fun e known later => ?_, readable⟩
  have sorted : (before ++ d :: after).Pairwise (· < ·) := all ▸ List.pairwise_lt_range
  rcases (member e).mp known with earlier | rfl | afterwards
  · exact absurd later (Nat.lt_asymm (List.pairwise_append.mp sorted |>.2.2 e earlier d List.mem_cons_self))
  · exact absurd later (Nat.lt_irrefl e)
  · exact last e afterwards

/-- A dump that comes to its end has lost no class just when the classes that share a file have the same text;
so it is when their names are plain, and each is the name of one class. Of the classes with the same file, the
last one is kept. -/
theorem writeProgram_keeps_classes (h : writeProgram p dir t = (t', none)) :
    (∀ c < p.classes.size, ∃ d < p.classes.size, classFile dir (p.className d) = classFile dir (p.className c) ∧
      (∀ e < p.classes.size, d < e → classFile dir (p.className e) ≠ classFile dir (p.className c)) ∧
      t'.read (classFile dir (p.className c)) = .ok (classText p d)) ∧
    ((∀ c < p.classes.size, t'.read (classFile dir (p.className c)) = .ok (classText p c)) ↔
      ∀ c < p.classes.size, ∀ d < p.classes.size,
        classFile dir (p.className c) = classFile dir (p.className d) → classText p c = classText p d) ∧
    ((∀ c < p.classes.size, Plain (p.className c)) →
      (∀ c < p.classes.size, ∀ d < p.classes.size, p.className c = p.className d → c = d) →
      ∀ c < p.classes.size, t'.read (classFile dir (p.className c)) = .ok (classText p c)) := by
  refine ⟨fun c => writeProgram_read h, ⟨fun kept c hc d hd same => ?_, fun agree c hc => ?_⟩,
    fun plain names c hc => ?_⟩
  · have readable := kept d hd
    rw [← same, kept c hc] at readable
    exact Except.ok.inj readable
  · obtain ⟨d, hd, same, -, readable⟩ := writeProgram_read h hc
    rw [readable, agree c hc d hd same.symm]
  · obtain ⟨d, hd, same, -, readable⟩ := writeProgram_read h hc
    obtain rfl := names d hd c hc ((plain d hd).classFile_inj (plain c hc) same)
    exact readable

/-- Empty classes with the given names. -/
def classesNamed (names : List String) : Program where
  classes := (names.map fun name =>
    ({ name, super := none, isAbstract := false, isInterface := false } : Class)).toArray

/-- Classes of packages. -/
def shop : Program := classesNamed ["Main", "shop/api.Client", "shop/api.Order"]

/-- The files of the shop are in the directories of the packages, and all are there. -/
theorem writeProgram_keeps_shop : ∃ t', writeProgram shop "out" {} = (t', none) ∧
    classFile "out" (shop.className 1) = "out/shop/api.Client.ir" ∧
    ∀ c < shop.classes.size, t'.read (classFile "out" (shop.className c)) = .ok (classText shop c) := by
  have done : (writeProgram shop "out" {}).2 = none := by decide +kernel
  have h : writeProgram shop "out" {} = (_, none) := Prod.ext rfl done
  exact ⟨_, h, by decide +kernel, (writeProgram_keeps_classes h).2.2 (by decide +kernel) (by decide +kernel)⟩

/-- The classes of two types of functions. -/
def functionTypes : Program := classesNamed ["func([]int)", "func(**int)"]

/-- The dump of the function types comes to its end, and the first of them is lost: both have one file. -/
theorem writeProgram_loses_function_type : functionTypes.className 0 ≠ functionTypes.className 1 ∧
    (writeProgram functionTypes "irout" {}).2 = none ∧
    classFile "irout" (functionTypes.className 0) = "irout/func___int_.ir" ∧
    (writeProgram functionTypes "irout" {}).1.read "irout/func___int_.ir" ≠ .ok (classText functionTypes 0) := by
  have second : ((writeProgram functionTypes "irout" {}).1.read "irout/func___int_.ir").toOption =
      some (classText functionTypes 1) := by
    decide +kernel
  refine ⟨by decide +kernel, by decide +kernel, by decide +kernel, fun kept => ?_⟩
  rw [kept] at second
  exact absurd second (by decide +kernel)

end WholeProgram.Dump
