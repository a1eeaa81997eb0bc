import WorkflowLens.Action.ProjectFiles
import WorkflowLens.Action.Reference
import WorkflowLens.Proofs.Text.Pieces

/-!
# Where the files of a project are looked for

The files of a project lie in the directory that is its root.  The path of one comes from a document
and may hold anything: two dots go up, and a slash at the beginning leads to the top of the file
system.  Every `./` at the beginning is dropped, and the rest is put behind the root unless it is
absolute.  Behind `./` a second slash makes it absolute.

Where a path leads is found without looking at what exists, part by part.  A path that is not
absolute first goes up and then down, whatever its parts are: two dots behind a name take the name
back, and those with no name in front of them add up.  So it leads out of the root if it goes up at
all, unless it comes down again by the names of the directories that it has left.

* `location`: where a path leads from a working directory.
* `Way`: a path as steps up and names on the way down, with `Way.foldl_goTo_eq`.
* `FileTree.exists_at?_of_read?`: what is read at a path stands where the path leads.
* `isPrefix_location_projectFilePath_iff`: when the path of a file leads into the root.
* `projectFilePath_spec`: for one root and for all of them.
-/

namespace WorkflowLens

theorem Text.parts_eq_splitOn (x : Char) (t : Text) : parts x t = t.splitOn x := by
  induction t with
  | nil => rw [parts, List.splitOn_nil]
  | cons c t ih =>
    rw [parts, ih, List.splitOn_cons_eq_if_modifyHead]
    by_cases hc : c = x
    · simp [hc]
    · obtain ⟨first, rest, hpieces⟩ := List.exists_cons_of_ne_nil (List.splitOn_ne_nil x t)
      rw [if_neg hc, if_neg (by simpa using hc), hpieces]
      rfl

theorem Text.parts_append_cons (x : Char) (s t : Text) :
    parts x (s ++ x :: t) = parts x s ++ parts x t := by
  rw [parts_eq_splitOn, parts_eq_splitOn, parts_eq_splitOn, List.splitOn_append_cons_self]

/-! ## Where a path leads -/

/-- Where a part of a path leads.  An empty part and a dot stay, two dots go up, but not further
than to the top, and a name goes down. -/
def goTo (here : List Text) (part : Text) : List Text :=
  if part = [] ∨ part = ['.'] then here
  else if part = ['.', '.'] then here.dropLast
  else here ++ [part]

/-- The names of the directories from the top of the file system to where a path leads.  A path that
is not absolute is followed from the working directory. -/
def location (working : List Text) (path : Text) : List Text :=
  (Text.parts '/' path).foldl goTo (if path.head? = some '/' then [] else working)

theorem location_of_absolute {path : Text} (h : path.head? = some '/') (working : List Text) :
    location working path = (Text.parts '/' path).foldl goTo [] := by
  rw [location, if_pos h]

/-- What is put behind a directory is followed from there. -/
theorem location_append {root : Text} (hroot : root ≠ []) (working : List Text) (rest : Text) :
    location working (root ++ '/' :: rest)
      = (Text.parts '/' rest).foldl goTo (location working root) := by
  rw [location, Text.parts_append_cons, List.foldl_append, location,
    List.head?_append_of_ne_nil _ hroot]

/-- A slash at the end of a directory does not matter. -/
theorem location_append_slash (working : List Text) (root rest : Text) :
    location working (root ++ '/' :: rest)
      = (Text.parts '/' rest).foldl goTo (location working (root ++ ['/'])) := by
  have hhead : (root ++ '/' :: rest).head? = (root ++ ['/']).head? := by
    cases root <;> rfl
  rw [location, location, hhead, Text.parts_append_cons, Text.parts_append_cons, List.foldl_append,
    List.foldl_append]
  rfl

/-- **A file that is not looked for at an absolute path is looked for from the root on.** -/
theorem location_projectFilePath {relative : Text} (h : (dropHere relative).head? ≠ some '/')
    (working : List Text) (root : Text) : location working (projectFilePath root relative)
      = (Text.parts '/' (dropHere relative)).foldl goTo (location working root) := by
  rw [projectFilePath, if_neg h]
  split
  · next hends =>
    rw [Bool.or_eq_true, List.isEmpty_iff, decide_eq_true_eq] at hends
    rcases hends with rfl | hslash
    · rw [List.nil_append, location, if_neg h]
      rfl
    · obtain ⟨front, rfl⟩ := List.getLast?_eq_some_iff.mp hslash
      rw [List.append_assoc, List.singleton_append, location_append_slash]
  · next hends =>
    refine location_append ?_ working _
    rintro rfl
    exact hends rfl

theorem projectFilePath_of_absolute {relative : Text} (h : (dropHere relative).head? = some '/')
    (root : Text) : projectFilePath root relative = dropHere relative := by
  rw [projectFilePath, if_pos h]

/-! ## Up and down -/

/-- A path that is not absolute, without detours. -/
structure Way where
  /-- How many directories it goes up. -/
  ups : Nat
  /-- The names by which it goes down from there. -/
  names : List Text
  deriving DecidableEq, Repr

namespace Way

/-- One part more.  Two dots take the last name back, and if there is none they go up. -/
def next (w : Way) (part : Text) : Way :=
  if part = [] ∨ part = ['.'] then w
  else if part = ['.', '.'] then
    if w.names = [] then ⟨w.ups + 1, []⟩ else ⟨w.ups, w.names.dropLast⟩
  else ⟨w.ups, w.names ++ [part]⟩

/-- The way that a path goes. -/
def ofPath (path : Text) : Way := (Text.parts '/' path).foldl next ⟨0, []⟩

/-- Where a way ends. -/
def endFrom (w : Way) (here : List Text) : List Text :=
  here.take (here.length - w.ups) ++ w.names

theorem goTo_endFrom (w : Way) (here : List Text) (part : Text) :
    goTo (w.endFrom here) part = (w.next part).endFrom here := by
  unfold goTo next endFrom
  split
  · rfl
  split
  · split
    · next hnames =>
      rw [hnames, List.append_nil, List.append_nil, List.dropLast_eq_take, List.take_take,
        List.length_take]
      congr 1
      dsimp only
      omega
    · next hnames => exact List.dropLast_append_of_ne_nil hnames
  · exact List.append_assoc ..

theorem foldl_goTo_endFrom (w : Way) (here : List Text) (parts : List Text) :
    parts.foldl goTo (w.endFrom here) = (parts.foldl next w).endFrom here := by
  induction parts generalizing w with
  | nil => rfl
  | cons part parts ih => rw [List.foldl_cons, goTo_endFrom, ih, List.foldl_cons]

/-- **A path leads up and then down.** -/
theorem foldl_goTo_eq (here : List Text) (path : Text) :
    (Text.parts '/' path).foldl goTo here = (ofPath path).endFrom here := by
  have hstart : here = endFrom ⟨0, []⟩ here := by simp [endFrom]
  conv_lhs => rw [hstart]
  exact foldl_goTo_endFrom ⟨0, []⟩ here _

/-- A way ends where it began or below exactly if it comes down by the names it went up. -/
theorem isPrefix_endFrom_iff (w : Way) (here : List Text) :
    here <+: w.endFrom here ↔ here.drop (here.length - w.ups) <+: w.names := by
  conv_lhs => lhs; rw [← List.take_append_drop (here.length - w.ups) here]
  exact List.prefix_append_right_inj _

/-- Two dots take back the name in front of them, and else they go up. -/
example : ofPath "a/../.././b//c".toList = ⟨1, ["b".toList, "c".toList]⟩ := by decide +kernel

end Way

/-! ## What is read -/

namespace FileTree

/-- What stands at a location. -/
def at? : FileTree → List Text → Option FileTree
  | here, [] => some here
  | .file _, _ :: _ => none
  | .directory entries, name :: names =>
    match entries.find? fun e => e.1 == name with
    | some (_, inner) => at? inner names
    | none => none

@[simp] theorem at?_nil (system : FileTree) : system.at? [] = some system := by
  cases system <;> rfl

theorem walk?_nil (here : FileTree) (outer : List FileTree) : walk? here outer [] = some here := by
  cases here <;> rfl

/-- A file or directory stands at a location, in directories of which each lies in the next. -/
inductive Stands (system : FileTree) : List Text → FileTree → List FileTree → Prop
  | top : Stands system [] system []
  | inside {names : List Text} {name other : Text} {entries : List (Text × FileTree)}
      {outer : List FileTree} {inner : FileTree} :
      Stands system names (.directory entries) outer →
      entries.find? (fun e => e.1 == name) = some (other, inner) →
      Stands system (names ++ [name]) inner (.directory entries :: outer)

variable {system here found : FileTree} {names : List Text} {outer : List FileTree}

theorem at?_append_singleton {entries : List (Text × FileTree)} {name other : Text}
    {inner : FileTree} (h : system.at? names = some (.directory entries))
    (hfind : entries.find? (fun e => e.1 == name) = some (other, inner)) :
    system.at? (names ++ [name]) = some inner := by
  induction names generalizing system with
  | nil =>
    rw [at?_nil, Option.some.injEq] at h
    rw [List.nil_append, h, at?, hfind]
    exact at?_nil inner
  | cons first names ih =>
    cases system with
    | file => cases h
    | directory =>
      rw [at?] at h
      rw [List.cons_append, at?]
      split at h
      · exact ih h
      · cases h

theorem Stands.at?_eq (h : Stands system names here outer) : system.at? names = some here := by
  induction h with
  | top => rfl
  | inside _ hfind ih => exact at?_append_singleton ih hfind

/-- What is found by way of a path stands where the path leads. -/
theorem Stands.exists_of_walk? {parts : List Text} (h : Stands system names here outer)
    (hwalk : walk? here outer parts = some found) :
    ∃ outer', Stands system (parts.foldl goTo names) found outer' := by
  induction parts generalizing names here outer with
  | nil =>
    rw [walk?_nil, Option.some.injEq] at hwalk
    exact ⟨outer, hwalk ▸ h⟩
  | cons part parts ih =>
    cases here with
    | file => cases hwalk
    | directory entries =>
      unfold walk? at hwalk
      rw [List.foldl_cons, goTo]
      split at hwalk
      · next hstay =>
        rw [if_pos hstay]
        exact ih h hwalk
      next hstay =>
      rw [if_neg hstay]
      split at hwalk
      · next hup =>
        rw [if_pos hup]
        cases h with
        | top => exact ih .top hwalk
        | inside habove hfind =>
          rw [List.dropLast_concat]
          exact ih habove hwalk
      next hup =>
      rw [if_neg hup]
      split at hwalk
      · next hfind => exact ih (h.inside hfind) hwalk
      · cases hwalk

/-- **What is read at a path is the content of the file to which the path leads.** -/
theorem exists_at?_of_read? {path content : Text} (h : system.read? path = some content) :
    ∃ bytes, system.at? (location [] path) = some (.file bytes) ∧ textOf? bytes = some content := by
  rw [read?] at h
  split at h
  · next bytes hwalk =>
    obtain ⟨outer, hstands⟩ := Stands.top.exists_of_walk? hwalk
    have hat := hstands.at?_eq
    rw [location, ite_self]
    exact ⟨bytes, hat, h⟩
  · cases h

end FileTree

/-! ## The root and what is below -/

/-- **A file is looked for in the root or below exactly if its path becomes absolute and leads there
all the same, or if it comes down by the names of the directories by which it goes up.** -/
theorem isPrefix_location_projectFilePath_iff (working : List Text) (root relative : Text) :
    location working root <+: location working (projectFilePath root relative) ↔
      if (dropHere relative).head? = some '/' then
        location working root <+: location [] (dropHere relative)
      else
        (location working root).drop
            ((location working root).length - (Way.ofPath (dropHere relative)).ups)
          <+: (Way.ofPath (dropHere relative)).names := by
  split
  · next habsolute =>
    rw [projectFilePath_of_absolute habsolute, location_of_absolute habsolute working,
      location_of_absolute habsolute []]
  · next habsolute =>
    rw [location_projectFilePath habsolute, Way.foldl_goTo_eq, Way.isPrefix_endFrom_iff]

/-- For every list of names there is a directory at the top whose name is not the first of them. -/
theorem exists_location_not_isPrefix (names : List Text) :
    ∃ root name, location [] root = [name] ∧ ¬ [name] <+: names := by
  -- a name that is longer than the first one, with no slashes and dots in it
  refine ⟨'/' :: List.replicate ((names.head?.getD []).length + 1) 'a',
    List.replicate ((names.head?.getD []).length + 1) 'a', ?_, fun hprefix => ?_⟩
  · have hslash : '/' ∉ List.replicate ((names.head?.getD []).length + 1) 'a' :=
      fun hmem => absurd (List.eq_of_mem_replicate hmem) (by decide)
    rw [location, ite_self, Text.parts_eq_splitOn, ← List.nil_append ('/' :: _),
      List.splitOn_append_cons_self, List.splitOn_eq_singleton hslash]
    simp [goTo, List.replicate_succ]
  · obtain ⟨rest, hnames⟩ := hprefix
    have hlength := congrArg (fun names : List Text => (names.head?.getD []).length) hnames
    simp at hlength

/-- **A file is looked for in the root or below, whatever the root is, exactly if its path does not
become absolute and never goes up farther than it has come down.**  For a single root there are two
more ways: an absolute path may lead there all the same, and a path may come down by the names of
the directories by which it has gone up.  What is read is the content of the file to which the path
leads. -/
theorem projectFilePath_spec (relative : Text) :
    (∀ working root, location working root <+: location working (projectFilePath root relative) ↔
      if (dropHere relative).head? = some '/' then
        location working root <+: location [] (dropHere relative)
      else
        (location working root).drop
            ((location working root).length - (Way.ofPath (dropHere relative)).ups)
          <+: (Way.ofPath (dropHere relative)).names) ∧
    ((∀ working root,
        location working root <+: location working (projectFilePath root relative)) ↔
      (dropHere relative).head? ≠ some '/' ∧ (Way.ofPath (dropHere relative)).ups = 0) ∧
    (∀ (system : FileTree) root content, system.readProjectFile? root relative = some content →
      ∃ bytes, system.at? (location [] (projectFilePath root relative)) = some (.file bytes) ∧
        FileTree.textOf? bytes = some content) := by
  refine ⟨fun working root => isPrefix_location_projectFilePath_iff working root relative,
    ⟨fun hall => ?_, ?_⟩, fun system root content => FileTree.exists_at?_of_read?⟩
  · have hroot := fun root =>
      (isPrefix_location_projectFilePath_iff [] root relative).mp (hall [] root)
    by_cases habsolute : (dropHere relative).head? = some '/'
    · obtain ⟨root, name, hlocation, hnot⟩ :=
        exists_location_not_isPrefix (location [] (dropHere relative))
      have hprefix := hroot root
      rw [if_pos habsolute, hlocation] at hprefix
      exact absurd hprefix hnot
    · refine ⟨habsolute, ?_⟩
      by_contra hups
      obtain ⟨root, name, hlocation, hnot⟩ :=
        exists_location_not_isPrefix (Way.ofPath (dropHere relative)).names
      have hprefix := hroot root
      rw [if_neg habsolute, hlocation, List.length_singleton,
        Nat.sub_eq_zero_of_le (Nat.pos_of_ne_zero hups), List.drop_zero] at hprefix
      exact hnot hprefix
  · rintro ⟨habsolute, hups⟩ working root
    rw [isPrefix_location_projectFilePath_iff, if_neg habsolute, hups, Nat.sub_zero,
      List.drop_length]
    exact List.nil_prefix

/-- **References of documents lead out of the root.**  One goes up with two dots, and one becomes
absolute when the `./` in front of it is gone. -/
theorem not_isPrefix_location_projectFilePath :
    Reference.ofUses "../secret".toList = .project "../secret/action.yml".toList ∧
      location [] (projectFilePath "/srv/app".toList "../secret/action.yml".toList)
        = ["srv".toList, "secret".toList, "action.yml".toList] ∧
      Reference.ofUses ".//a".toList = .project ".//a/action.yml".toList ∧
      location [] (projectFilePath "/srv/app".toList ".//a/action.yml".toList)
        = ["a".toList, "action.yml".toList] ∧
      ¬ location [] "/srv/app".toList
        <+: location [] (projectFilePath "/srv/app".toList "../secret/action.yml".toList) ∧
      ¬ location [] "/srv/app".toList
        <+: location [] (projectFilePath "/srv/app".toList ".//a/action.yml".toList) := by
  decide +kernel

end WorkflowLens
