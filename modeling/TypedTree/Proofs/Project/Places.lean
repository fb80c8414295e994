import TypedTree.Files.Memory
/-! Where paths lead as far as their texts tell, whatever is there. A `.` leads nowhere, a `..` leads one level
up, though not out of the root, and an absolute path leads to the same place from everywhere. -/

namespace TypedTree

namespace Path

theorem pieces_append_slash (front back : List Char) : pieces (front ++ '/' :: back) = pieces front ++ pieces back := by
  induction front with
  | nil => rfl
  | cons char front ih =>
    rw [List.cons_append, pieces, pieces, ih]
    split
    · rfl
    · cases found : pieces front with
      | nil => exact absurd found (pieces_ne_nil front)
      | cons piece rest => rfl

theorem pieces_of_not_mem {chars : List Char} (plain : '/' ∉ chars) : pieces chars = [chars] := by
  induction chars with
  | nil => rfl
  | cons char chars ih =>
    rw [List.mem_cons, not_or] at plain
    rw [pieces, if_neg (Ne.symm plain.1), ih plain.2]

theorem pieces_append {back : List Char} (plain : '/' ∉ back) (front : List Char) :
    ∃ before last, pieces (front ++ back) = before ++ [last ++ back] := by
  induction front with
  | nil => exact ⟨[], [], pieces_of_not_mem plain⟩
  | cons char front ih =>
    obtain ⟨before, last, same⟩ := ih
    rw [List.cons_append, pieces, same]
    split
    · exact ⟨[] :: before, last, rfl⟩
    · cases before with
      | nil => exact ⟨[], char :: last, rfl⟩
      | cons piece before => exact ⟨(char :: piece) :: before, last, rfl⟩

theorem plain_of_mem_pieces {piece chars : List Char} (member : piece ∈ pieces chars) : '/' ∉ piece := by
  induction chars generalizing piece with
  | nil =>
    rw [pieces, List.mem_singleton] at member
    rw [member]
    exact List.not_mem_nil
  | cons char chars ih =>
    rw [pieces] at member
    split at member
    · rcases List.mem_cons.mp member with rfl | later
      · exact List.not_mem_nil
      · exact ih later
    next other =>
      cases found : pieces chars with
      | nil => exact absurd found (pieces_ne_nil chars)
      | cons first rest =>
        rw [found] at member ih
        rcases List.mem_cons.mp member with rfl | later
        · exact List.not_mem_cons_of_ne_of_not_mem (Ne.symm other) (ih List.mem_cons_self)
        · exact ih (List.mem_cons_of_mem _ later)

theorem plain_of_fileName? {path name : String} (named : fileName? path = some name) : '/' ∉ name.toList := by
  have behind (chars : List Char) {piece : List Char} (member : piece ∈ (pieces chars).reverse.dropWhile isIdle) :
      '/' ∉ piece :=
    plain_of_mem_pieces (List.mem_reverse.mp ((List.dropWhile_suffix isIdle).mem member))
  have pieces : ∀ piece ∈ (Route.ofList path.toList).back, '/' ∉ piece := by
    intro piece member
    unfold Route.ofList at member
    split at member
    · exact behind _ member
    · cases member
    · exact behind _ member
    · exact behind _ member
  rw [fileName?] at named
  split at named
  · cases named
  next name _ found =>
    split at named
    · cases named
    · cases named
      rw [String.toList_ofList]
      exact pieces name (found ▸ List.mem_cons_self)

def opened (base : String) : String :=
  if base.isEmpty || base.toList.getLast? = some '/' then base else base ++ "/"

theorem opened_cases (base : String) :
    base = "" ∧ opened base = "" ∨
      base ≠ "" ∧ ∃ front, (opened base).toList = front ++ ['/'] ∧
        (base.toList = front ∨ base.toList = front ++ ['/']) := by
  by_cases empty : base = ""
  · exact .inl ⟨empty, by rw [empty]; rfl⟩
  · have filled : base.isEmpty = false := by simpa using empty
    refine .inr ⟨empty, ?_⟩
    rw [opened, filled, Bool.false_or]
    by_cases slash : base.toList.getLast? = some '/'
    · obtain ⟨front, same⟩ := List.getLast?_eq_some_iff.mp slash
      rw [if_pos (decide_eq_true slash)]
      exact ⟨front, same, .inr same⟩
    · rw [if_neg (by simpa using slash)]
      exact ⟨base.toList, String.toList_append, .inl rfl⟩

theorem join_eq_opened {path : String} (relative : isAbsolute path = false) (base : String) :
    join base path = opened base ++ path := by
  rw [join, opened, relative, Bool.false_or]
  cases empty : base.isEmpty with
  | true => simp [String.isEmpty_iff.mp empty]
  | false => by_cases slash : base.toList.getLast? = some '/' <;> simp [slash]

theorem isAbsolute_of_plain {path : String} (plain : '/' ∉ path.toList) : isAbsolute path = false :=
  decide_eq_false fun slash => plain (List.mem_of_mem_head? slash)

theorem join_eq_self {path : String} (absolute : isAbsolute path = true) (base : String) : join base path = path := by
  rw [join, absolute]
  rfl

theorem isAbsolute_join (base path : String) : isAbsolute (join base path) = (isAbsolute path || isAbsolute base) := by
  cases absolute : isAbsolute path with
  | true => rw [join_eq_self absolute, absolute, Bool.true_or]
  | false =>
    rw [join_eq_opened absolute, Bool.false_or]
    rcases opened_cases base with ⟨rfl, empty⟩ | ⟨filled, front, same, given⟩
    · rw [empty, String.empty_append, absolute]
      rfl
    · rw [isAbsolute, isAbsolute, String.toList_append, same]
      cases front with
      | cons char front => rcases given with given | given <;> rw [given] <;> rfl
      | nil =>
        rcases given with given | given
        · exact absurd (String.toList_eq_nil_iff.mp given) filled
        · rw [given]
          rfl

end Path

namespace FileTree

theorem namesOf_of_slash {path : String} {front back : List Char} (same : path.toList = front ++ '/' :: back) :
    namesOf path = namesOf (String.ofList front) ++ namesOf (String.ofList back) := by
  simp only [namesOf, same, Path.pieces_append_slash, List.filter_append, List.map_append, String.toList_ofList]

theorem namesOf_opened_append (base path : String) :
    namesOf (Path.opened base ++ path) = namesOf base ++ namesOf path := by
  rcases Path.opened_cases base with ⟨rfl, empty⟩ | ⟨-, front, same, given⟩
  · rw [empty, String.empty_append]
    rfl
  · have slash : (Path.opened base ++ path).toList = front ++ '/' :: path.toList := by
      rw [String.toList_append, same, List.append_assoc]
      rfl
    rw [namesOf_of_slash slash, String.ofList_toList]
    rcases given with given | given
    · rw [← given, String.ofList_toList]
    · rw [namesOf_of_slash given]
      exact congrArg (· ++ namesOf path) (List.append_nil _).symm

theorem namesOf_join {path : String} (relative : Path.isAbsolute path = false) (base : String) :
    namesOf (Path.join base path) = namesOf base ++ namesOf path := by
  rw [Path.join_eq_opened relative, namesOf_opened_append]

theorem namesOf_append (path ending : String) (filled : ending ≠ "") (plain : '/' ∉ ending.toList) :
    ∃ before last, namesOf (path ++ ending) = before ++ [last ++ ending] := by
  obtain ⟨before, last, same⟩ := Path.pieces_append plain path.toList
  refine ⟨(before.filter fun piece => !piece.isEmpty).map String.ofList, String.ofList last, ?_⟩
  have kept : (last ++ ending.toList).isEmpty = false := by simp [filled]
  simp [namesOf, String.toList_append, same, kept, String.ofList_append]

theorem endsOpen_append {ending : String} (filled : ending ≠ "") (path : String) :
    endsOpen (path ++ ending) = endsOpen ending := by
  rw [endsOpen, endsOpen, String.toList_append, List.getLast?_append]
  cases last : ending.toList.getLast? with
  | none => exact absurd (String.toList_eq_nil_iff.mp (List.getLast?_eq_none_iff.mp last)) filled
  | some char => rfl

structure IsName (name : String) : Prop where
  filled : name ≠ ""
  plain : '/' ∉ name.toList
  whole : '\x00' ∉ name.toList
  short : name.utf8ByteSize ≤ 255

theorem IsName.relative {name : String} (isName : IsName name) : Path.isAbsolute name = false :=
  Path.isAbsolute_of_plain isName.plain

theorem IsName.single {name : String} (isName : IsName name) : namesOf name = [name] := by
  have filled : name.toList.isEmpty = false := by simpa using isName.filled
  simp [namesOf, Path.pieces_of_not_mem isName.plain, filled]

theorem IsName.closed {name : String} (isName : IsName name) : endsOpen name = false :=
  decide_eq_false fun slash => isName.plain (List.mem_of_getLast? slash)

end FileTree

def Place.step (place : Place) (name : String) : Place :=
  if name = "." then place else if name = ".." then place.dropLast else place ++ [name]

def Place.lead (place : Place) (names : List String) : Place := names.foldl Place.step place

def Place.IsBelow (place upper : Place) : Prop := upper <+: place ∧ place ≠ upper

/-- Where a path leads from the current directory. -/
def FileTree.placeOf (tree : FileTree) (path : String) : Place :=
  Place.lead (if Path.isAbsolute path then [] else tree.current.getD []) (namesOf path)

theorem FileTree.placeOf_join {path : String} (relative : Path.isAbsolute path = false) (tree : FileTree)
    (base : String) : tree.placeOf (Path.join base path) = Place.lead (tree.placeOf base) (namesOf path) := by
  rw [placeOf, placeOf, Path.isAbsolute_join, relative, Bool.false_or, namesOf_join relative]
  exact List.foldl_append

theorem FileTree.IsName.placeOf_join {name : String} (isName : FileTree.IsName name) (tree : FileTree) (base : String) :
    tree.placeOf (Path.join base name) = (tree.placeOf base).step name := by
  rw [FileTree.placeOf_join isName.relative, isName.single]
  rfl

theorem FileTree.placeOf_absolute {path : String} (absolute : Path.isAbsolute path = true) (tree : FileTree) :
    tree.placeOf path = Place.lead [] (namesOf path) := by
  rw [placeOf, if_pos absolute]

/-- What names come to: how many levels they lead up, and which names lead down from there. -/
structure Course where
  climbs : Nat := 0
  descent : List String := []

namespace Course

def step (course : Course) (name : String) : Course :=
  if name = "." then course
  else if name = ".." then
    if course.descent = [] then { course with climbs := course.climbs + 1 }
    else { course with descent := course.descent.dropLast }
  else { course with descent := course.descent ++ [name] }

def ofNames (names : List String) : Course := names.foldl step {}

def endFrom (course : Course) (place : Place) : Place := place.take (place.length - course.climbs) ++ course.descent

theorem endFrom_step (course : Course) (place : Place) (name : String) :
    (course.step name).endFrom place = (course.endFrom place).step name := by
  rw [step, Place.step]
  split
  · rfl
  · split
    · by_cases top : course.descent = []
      · rw [if_pos top, endFrom, endFrom, top, List.append_nil, List.append_nil, List.dropLast_eq_take, List.take_take,
          List.length_take]
        simp only [Nat.sub_add_eq]
        congr 1
        omega
      · rw [if_neg top, endFrom, endFrom, List.dropLast_append_of_ne_nil top]
    · exact (List.append_assoc _ _ _).symm

theorem lead_eq (place : Place) (names : List String) : place.lead names = (ofNames names).endFrom place := by
  have start : endFrom {} place = place := by simp [endFrom]
  rw [ofNames, Place.lead, ← List.foldl_hom (fun course => endFrom course place) fun course name =>
    (endFrom_step course place name).symm, start]

end Course

namespace Place

theorem lead_append (place : Place) (front back : List String) :
    place.lead (front ++ back) = (place.lead front).lead back := List.foldl_append

/-- Names lead on below a place exactly if what leads down again begins with the levels that have been left. -/
theorem prefix_lead_iff (place : Place) (names : List String) :
    place <+: place.lead names ↔
      place.drop (place.length - (Course.ofNames names).climbs) <+: (Course.ofNames names).descent := by
  rw [Course.lead_eq, Course.endFrom]
  generalize place.length - (Course.ofNames names).climbs = kept
  have under : place.take kept ++ place.drop kept <+: place.take kept ++ (Course.ofNames names).descent ↔
      place.drop kept <+: (Course.ofNames names).descent := List.prefix_append_right_inj (place.take kept)
  rwa [List.take_append_drop] at under

theorem lead_root (names : List String) : lead [] names = (Course.ofNames names).descent := by
  rw [Course.lead_eq, Course.endFrom, List.take_nil, List.nil_append]

theorem isBelow_append_iff {place upper : Place} {name : String} (other : upper.getLast? ≠ some name) :
    (place ++ [name]).IsBelow upper ↔ upper <+: place := by
  have different : upper ≠ place ++ [name] := fun same => other (same ▸ List.getLast?_concat)
  rw [IsBelow, List.prefix_concat_iff]
  exact ⟨fun below => below.1.resolve_left different, fun above => ⟨.inr above, different.symm⟩⟩

end Place

end TypedTree
