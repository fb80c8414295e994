import TypedTree.Proofs.Project.Load
import TypedTree.Proofs.Project.Places
/-! What operations do to files in memory. A path that can be followed leads where its text says; an operation
changes what stands at the place its path names, and keeps what stands elsewhere. -/

namespace TypedTree

theorem Table.find?_filter {κ α : Type} [DecidableEq κ] (table : Table κ α) (keep : κ → Bool) (key : κ) :
    find? ⟨table.entries.filter fun entry => keep entry.1⟩ key = if keep key then table.find? key else none := by
  rw [find?, find?, List.find?_filter]
  cases kept : keep key with
  | true =>
    rw [if_pos rfl]
    congr 2
    funext entry
    by_cases found : entry.1 = key <;> simp [found, kept]
  | false =>
    rw [if_neg Bool.false_ne_true, Option.map_eq_none_iff, List.find?_eq_none]
    intro entry _
    by_cases found : entry.1 = key <;> simp [found, kept]

namespace FileTree

variable {tree after : FileTree} {path content : String} {place upper found start : Place} {names : List String}
  {stored : Stored}

section Following

theorem walk_cons_eq_ok_iff {name : String} :
    tree.walk place (name :: names) = .ok found ↔
      tree.at? place = some .directory ∧ name.utf8ByteSize ≤ 255 ∧ tree.walk (place.step name) names = .ok found := by
  have idle : ".".utf8ByteSize ≤ 255 := by decide
  have upwards : "..".utf8ByteSize ≤ 255 := by decide
  rw [walk, Place.step]
  cases tree.at? place with
  | none => simp only [reduceCtorEq, false_and]
  | some stored =>
    cases stored with
    | text content => simp only [reduceCtorEq, Option.some.injEq, false_and]
    | directory =>
      simp only [true_and]
      by_cases dot : name = "."
      · simp only [dot, if_true, idle, true_and]
      · by_cases dots : name = ".."
        · simp only [dots, String.reduceEq, if_true, if_false, upwards, true_and]
        · by_cases long : 255 < name.utf8ByteSize
          · simp only [if_neg dot, if_neg dots, if_pos long, reduceCtorEq, Nat.not_le.mpr long, false_and]
          · simp only [if_neg dot, if_neg dots, if_neg long, Nat.not_lt.mp long, true_and]

theorem walk_append_eq_ok_iff {front back : List String} :
    tree.walk place (front ++ back) = .ok found ↔
      ∃ middle, tree.walk place front = .ok middle ∧ tree.walk middle back = .ok found := by
  induction front generalizing place with
  | nil => simp only [List.nil_append, walk, Except.ok.injEq, exists_eq_left']
  | cons name front ih => simp only [List.cons_append, walk_cons_eq_ok_iff, ih, and_assoc, exists_and_left]

theorem walk_idle_eq_ok_iff : tree.walk place ["."] = .ok found ↔ tree.at? place = some .directory ∧ place = found := by
  rw [walk_cons_eq_ok_iff]
  exact ⟨fun ⟨here, _, same⟩ => ⟨here, Except.ok.inj same⟩, fun ⟨here, same⟩ => ⟨here, by decide, same ▸ rfl⟩⟩

theorem walk_eq_lead (walked : tree.walk place names = .ok found) : found = place.lead names := by
  induction names generalizing place with
  | nil => exact (Except.ok.inj walked).symm
  | cons name names ih => exact ih (walk_cons_eq_ok_iff.mp walked).2.2

/-- A way stays open as long as directories are kept. -/
theorem walk_of_kept (kept : ∀ upper, tree.at? upper = some .directory → after.at? upper = some .directory)
    (walked : tree.walk place names = .ok found) : after.walk place names = .ok found := by
  induction names generalizing place with
  | nil => exact walked
  | cons name names ih =>
    obtain ⟨here, short, further⟩ := walk_cons_eq_ok_iff.mp walked
    exact walk_cons_eq_ok_iff.mpr ⟨kept _ here, short, ih further⟩

def IsOpenTo (tree : FileTree) (place : Place) : Prop := ∀ upper, place.IsBelow upper → tree.at? upper = some .directory

theorem isOpenTo_of_walk (started : tree.IsOpenTo place) (walked : tree.walk place names = .ok found) :
    tree.IsOpenTo found := by
  induction names generalizing place with
  | nil => exact Except.ok.inj walked ▸ started
  | cons name names ih =>
    obtain ⟨here, -, further⟩ := walk_cons_eq_ok_iff.mp walked
    -- only a directory is left, so that it may come to stand above the next place
    refine ih ?_ further
    intro upper below
    have above : upper <+: place := by
      rw [Place.step] at below
      split at below
      · exact below.1
      · split at below
        · exact below.1.trans (List.dropLast_prefix place)
        · exact (List.prefix_concat_iff.mp below.1).resolve_left (Ne.symm below.2)
    by_cases same : place = upper
    · exact same ▸ here
    · exact started upper ⟨above, same⟩

theorem startOf_eq_ok_iff :
    tree.startOf path = .ok start ↔ path ≠ "" ∧ '\x00' ∉ path.toList ∧ path.utf8ByteSize ≤ 4095 ∧
      (if Path.isAbsolute path then some [] else tree.current) = some start := by
  rw [startOf]
  split
  next empty => exact iff_of_false (by simp) fun started => started.1 (String.isEmpty_iff.mp empty)
  next filled =>
    split
    next zero => exact iff_of_false (by simp) fun started => started.2.1 (List.contains_iff_mem.mp zero)
    next whole =>
      split
      next long => exact iff_of_false (by simp) fun started => Nat.not_le.mpr long started.2.2.1
      next short =>
        have sound : path ≠ "" ∧ '\x00' ∉ path.toList ∧ path.utf8ByteSize ≤ 4095 :=
          ⟨mt String.isEmpty_iff.mpr filled, mt List.contains_iff_mem.mpr whole, Nat.not_lt.mp short⟩
        simp only [sound, ne_eq, not_false_eq_true, true_and]
        cases Path.isAbsolute path <;> cases tree.current <;> simp

theorem startOf_join {base name other : String} (isName : IsName name) (isOther : IsName other)
    (shorter : other.utf8ByteSize ≤ name.utf8ByteSize) (started : tree.startOf (Path.join base name) = .ok start) :
    tree.startOf (Path.join base other) = .ok start := by
  rw [startOf_eq_ok_iff, Path.isAbsolute_join, isName.relative, Path.join_eq_opened isName.relative,
    String.toList_append, List.mem_append, not_or, String.utf8ByteSize_append] at started
  obtain ⟨-, ⟨whole, -⟩, short, same⟩ := started
  rw [startOf_eq_ok_iff, Path.isAbsolute_join, isOther.relative, Path.join_eq_opened isOther.relative,
    String.toList_append, List.mem_append, not_or, String.utf8ByteSize_append]
  refine ⟨by simp [isOther.filled], ⟨whole, isOther.whole⟩, by omega, same⟩

theorem find_eq_ok_iff :
    tree.find path = .ok (place, stored) ↔
      ∃ start, tree.startOf path = .ok start ∧
        tree.walk start (namesOf path ++ if endsOpen path then ["."] else []) = .ok place ∧
          tree.at? place = some stored := by
  rw [find, bind_eq_ok_iff]
  simp only [bind_eq_ok_iff]
  constructor
  · rintro ⟨start, started, found, walked, same⟩
    cases stands : tree.at? found with
    | none => rw [stands] at same; cases same
    | some what =>
      rw [stands] at same
      cases same
      exact ⟨start, started, walked, stands⟩
  · rintro ⟨start, started, walked, stands⟩
    refine ⟨start, started, place, walked, ?_⟩
    rw [stands]

theorem eq_of_startOf (started : tree.startOf path = .ok start) :
    (if Path.isAbsolute path then [] else tree.current.getD []) = start := by
  obtain ⟨-, -, -, same⟩ := startOf_eq_ok_iff.mp started
  split at same <;> simp_all

theorem placeOf_of_startOf (started : tree.startOf path = .ok start) :
    tree.placeOf path = start.lead (namesOf path) := by
  rw [placeOf, eq_of_startOf started]

theorem find_of_kept (current : after.current = tree.current)
    (kept : ∀ upper, tree.at? upper = some .directory → after.at? upper = some .directory)
    (known : tree.find path = .ok (place, stored)) (still : after.at? place = some stored) :
    after.find path = .ok (place, stored) := by
  obtain ⟨start, started, walked, -⟩ := find_eq_ok_iff.mp known
  rw [startOf_eq_ok_iff, ← current, ← startOf_eq_ok_iff] at started
  exact find_eq_ok_iff.mpr ⟨start, started, walk_of_kept kept walked, still⟩

theorem readText_eq_ok_iff :
    tree.readText path = .ok content ↔ ∃ place, tree.find path = .ok (place, .text content) := by
  rw [readText, bind_eq_ok_iff]
  constructor
  · rintro ⟨⟨place, text | _⟩, known, same⟩
    · cases same
      exact ⟨place, known⟩
    · cases same
  · rintro ⟨place, known⟩
    exact ⟨_, known, rfl⟩

theorem find_eq_placeOf (known : tree.find path = .ok (place, stored)) : place = tree.placeOf path := by
  obtain ⟨start, started, walked, -⟩ := find_eq_ok_iff.mp known
  rw [placeOf_of_startOf started, walk_eq_lead walked, Place.lead_append]
  split <;> rfl

theorem target_eq_some (known : tree.target path = .ok (some place)) :
    place = tree.placeOf path ∧ ∃ start directory name, tree.startOf path = .ok start ∧
      tree.walk start (namesOf path).dropLast = .ok directory ∧ tree.at? directory = some .directory ∧
        place = directory ++ [name] := by
  rw [target, bind_eq_ok_iff] at known
  obtain ⟨start, started, known⟩ := known
  obtain ⟨_, walkedOn, known⟩ := bind_eq_ok_iff.mp known
  obtain ⟨directory, walked, idle⟩ := walk_append_eq_ok_iff.mp walkedOn
  obtain ⟨stands, rfl⟩ := walk_idle_eq_ok_iff.mp idle
  cases last : (namesOf path).getLast? with
  | none =>
    rw [last] at known
    cases known
  | some name =>
    rw [last] at known
    obtain ⟨before, names⟩ := List.getLast?_eq_some_iff.mp last
    simp only at known
    split at known
    · cases known
    next proper =>
      split at known
      · cases known
      · cases known
        refine ⟨?_, start, directory, name, started, walked, stands, rfl⟩
        rw [placeOf_of_startOf started, walk_eq_lead walked, names, List.dropLast_concat, Place.lead_append]
        simp [Place.lead, Place.step, not_or.mp proper]

theorem ne_nil_of_target (known : tree.target path = .ok (some place)) : place ≠ [] := by
  obtain ⟨-, _, directory, name, -, -, -, rfl⟩ := target_eq_some known
  simp

theorem at?_base_of_target {base : String} (relative : Path.isAbsolute path = false) (filled : namesOf path ≠ [])
    (known : tree.target (Path.join base path) = .ok (some place)) :
    tree.at? (tree.placeOf base) = some .directory := by
  obtain ⟨-, start, directory, name, started, walked, stands, -⟩ := target_eq_some known
  have begins := eq_of_startOf started
  rw [Path.isAbsolute_join, relative, Bool.false_or] at begins
  rw [namesOf_join relative, List.dropLast_append_of_ne_nil filled, walk_append_eq_ok_iff] at walked
  obtain ⟨middle, walkedBase, further⟩ := walked
  rw [placeOf, begins, ← walk_eq_lead walkedBase]
  cases names : (namesOf path).dropLast with
  | nil =>
    rw [names] at further
    exact Except.ok.inj further ▸ stands
  | cons name names =>
    rw [names] at further
    exact (walk_cons_eq_ok_iff.mp further).1

theorem isOpenTo_of_target (absolute : Path.isAbsolute path = true) (known : tree.target path = .ok (some place)) :
    tree.IsOpenTo place := by
  obtain ⟨-, start, directory, name, started, walked, stands, rfl⟩ := target_eq_some known
  have begins := eq_of_startOf started
  rw [if_pos absolute] at begins
  cases begins
  have root : tree.IsOpenTo [] := fun upper below => absurd (List.prefix_nil.mp below.1).symm below.2
  intro upper below
  rcases List.prefix_concat_iff.mp below.1 with same | above
  · exact absurd same.symm below.2
  · by_cases same : directory = upper
    · exact same ▸ stands
    · exact isOpenTo_of_walk root walked upper ⟨above, same⟩

theorem find_beside {base name other : String} (isName : IsName name) (isOther : IsName other)
    (shorter : other.utf8ByteSize ≤ name.utf8ByteSize) (known : tree.find (Path.join base name) = .ok (place, stored))
    (stands : tree.at? (tree.placeOf (Path.join base other)) = some .directory) :
    tree.find (Path.join base other) = .ok (tree.placeOf (Path.join base other), .directory) := by
  obtain ⟨start, started, walked, -⟩ := find_eq_ok_iff.mp known
  have startedOther := startOf_join isName isOther shorter started
  refine find_eq_ok_iff.mpr ⟨start, startedOther, ?_, stands⟩
  rw [namesOf_join isName.relative, isName.single, List.append_assoc, walk_append_eq_ok_iff] at walked
  obtain ⟨directory, walkedBase, walkedName⟩ := walked
  obtain ⟨above, -⟩ := walk_cons_eq_ok_iff.mp walkedName
  have closed : endsOpen (Path.join base other) = false := by
    rw [Path.join_eq_opened isOther.relative, endsOpen_append isOther.filled, isOther.closed]
  rw [placeOf_of_startOf startedOther, closed, namesOf_join isOther.relative, isOther.single, if_neg Bool.false_ne_true,
    List.append_nil, walk_append_eq_ok_iff, Place.lead_append, ← walk_eq_lead walkedBase]
  exact ⟨directory, walkedBase, walk_cons_eq_ok_iff.mpr ⟨above, isOther.short, rfl⟩⟩

end Following

section Changing

theorem at?_insert (proper : place ≠ []) (tree : FileTree) (stored : Stored) (other : Place) :
    at? { tree with entries := tree.entries.insert place stored } other =
      if other = place then some stored else tree.at? other := by
  rw [at?, at?, Table.find?_insert]
  by_cases same : other = place
  · rw [if_pos same, if_pos same, if_neg (by rw [same]; simpa using proper)]
  · rw [if_neg same, if_neg same]

theorem at?_removePlace (proper : place ≠ []) (tree : FileTree) (other : Place) :
    (tree.removePlace place).at? other = if place <+: other then none else tree.at? other := by
  have kept : (!place.isPrefixOf other) = true ↔ ¬place <+: other := by
    rw [Bool.not_eq_true', ← Bool.not_eq_true, List.isPrefixOf_iff_prefix]
  rw [at?, at?, removePlace, Table.find?_filter _ (fun key => !place.isPrefixOf key)]
  by_cases below : place <+: other
  · have filled : other ≠ [] := fun empty => proper (List.prefix_nil.mp (empty ▸ below))
    rw [if_neg (by simpa using filled), if_neg (mt kept.mp (not_not_intro below)), if_pos below]
  · rw [if_pos (kept.mpr below), if_neg below]

/-- Files with all that stood there before, and the same current directory. -/
structure Extends (after tree : FileTree) : Prop where
  current : after.current = tree.current
  stands : ∀ place stored, tree.at? place = some stored → after.at? place = some stored

theorem Extends.refl (tree : FileTree) : tree.Extends tree := ⟨rfl, fun _ _ stands => stands⟩

theorem Extends.trans {middle : FileTree} (later : after.Extends middle) (earlier : middle.Extends tree) :
    after.Extends tree :=
  ⟨later.current.trans earlier.current, fun _ _ stands => later.stands _ _ (earlier.stands _ _ stands)⟩

theorem placeOf_of_current (same : after.current = tree.current) (path : String) :
    after.placeOf path = tree.placeOf path := by
  rw [placeOf, placeOf, same]

theorem Extends.placeOf (extended : after.Extends tree) (path : String) : after.placeOf path = tree.placeOf path :=
  placeOf_of_current extended.current path

theorem makeDirectory_extends (made : tree.makeDirectory path = .ok after) : after.Extends tree := by
  rw [makeDirectory, bind_eq_ok_iff] at made
  obtain ⟨named, target, made⟩ := made
  cases named with
  | none => cases made
  | some place =>
    simp only at made
    split at made
    · cases made
    next free =>
      cases made
      have proper := ne_nil_of_target target
      refine ⟨rfl, fun other stored stands => ?_⟩
      have different : other ≠ place := by
        rintro rfl
        exact free (Option.isSome_iff_exists.mpr ⟨stored, stands⟩)
      rw [at?_insert proper, if_neg different, stands]

theorem writeText_eq_ok (written : tree.writeText path content = .ok after) :
    tree.target path = .ok (some (tree.placeOf path)) ∧ tree.at? (tree.placeOf path) ≠ some .directory ∧
      after = { tree with entries := tree.entries.insert (tree.placeOf path) (.text content) } := by
  rw [writeText, bind_eq_ok_iff] at written
  obtain ⟨named, target, written⟩ := written
  cases named with
  | none => cases written
  | some place =>
    simp only at written
    split at written
    · cases written
    next allowed =>
      cases written
      obtain ⟨rfl, -⟩ := target_eq_some target
      exact ⟨target, (not_or.mp allowed).2, rfl⟩

theorem current_of_writeText (written : tree.writeText path content = .ok after) : after.current = tree.current := by
  obtain ⟨-, -, rfl⟩ := writeText_eq_ok written
  rfl

theorem at?_of_writeText (written : tree.writeText path content = .ok after) (place : Place) :
    after.at? place = if place = tree.placeOf path then some (.text content) else tree.at? place := by
  obtain ⟨target, -, rfl⟩ := writeText_eq_ok written
  exact at?_insert (ne_nil_of_target target) tree _ place

theorem directory_of_writeText (written : tree.writeText path content = .ok after)
    (stands : tree.at? place = some .directory) : after.at? place = some .directory := by
  obtain ⟨-, free, -⟩ := writeText_eq_ok written
  have different : place ≠ tree.placeOf path := fun same => free (same ▸ stands)
  rw [at?_of_writeText written, if_neg different, stands]

end Changing

end FileTree

end TypedTree
