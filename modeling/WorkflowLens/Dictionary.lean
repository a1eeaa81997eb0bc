/-!
# Dictionaries

Maps from names to texts that remember the order in which names came.  No name occurs twice,
and this is part of the type.

* `insertNew`: a name that is already there keeps its text.
* `insert`: a name that is already there keeps its place and takes the new text.
* `erase`: the others keep their order.
-/

namespace WorkflowLens

/-- Names with their texts, in order of insertion and without repeated names. -/
structure Dictionary where
  entries : List (String × String)
  nodup_names : (entries.map Prod.fst).Nodup

namespace Dictionary

/-- The dictionary with no names. -/
def empty : Dictionary := ⟨[], List.nodup_nil⟩

instance : Inhabited Dictionary := ⟨empty⟩

instance : DecidableEq Dictionary := fun a b =>
  match a, b with
  | ⟨xs, _⟩, ⟨ys, _⟩ =>
    if h : xs = ys then isTrue (by subst h; rfl)
    else isFalse fun e => h (congrArg entries e)

/-- The names, in order. -/
def names (d : Dictionary) : List String :=
  d.entries.map Prod.fst

/-- The number of names. -/
def size (d : Dictionary) : Nat :=
  d.entries.length

/-- The text of a name. -/
def get? (d : Dictionary) (name : String) : Option String :=
  d.entries.lookup name

/-- The dictionary with `name` at its end, unless it already has that name. -/
def insertNew (d : Dictionary) (name text : String) : Dictionary :=
  if h : name ∈ d.names then d
  else
    ⟨d.entries ++ [(name, text)], by
      rw [List.map_append, List.nodup_append]
      refine ⟨d.nodup_names, by simp, ?_⟩
      rintro a ha b hb rfl
      simp only [List.map_cons, List.map_nil, List.mem_singleton] at hb
      exact h (hb ▸ ha)⟩

/-- The dictionary in which `name` has `text`: in its old place, or else at the end. -/
def insert (d : Dictionary) (name text : String) : Dictionary :=
  if name ∈ d.names then
    ⟨d.entries.map fun (n, t) => (n, if n = name then text else t), by
      have h : (d.entries.map fun (n, t) => (n, if n = name then text else t)).map Prod.fst
          = d.entries.map Prod.fst := by rw [List.map_map]; rfl
      rw [h]
      exact d.nodup_names⟩
  else d.insertNew name text

/-- The dictionary without `name`. -/
def erase (d : Dictionary) (name : String) : Dictionary :=
  ⟨d.entries.filter fun (n, _) => n != name,
    List.Nodup.sublist (List.filter_sublist.map Prod.fst) d.nodup_names⟩

/-- The dictionary of a list in which the first text of a name counts. -/
def ofListFirst (pairs : List (String × String)) : Dictionary :=
  pairs.foldl (fun d (name, text) => d.insertNew name text) empty

/-- The dictionary of a list in which a name stands where it came first and has the text that
came last. -/
def ofListLast (pairs : List (String × String)) : Dictionary :=
  pairs.foldl (fun d (name, text) => d.insert name text) empty

/-- The dictionary followed by those names of a second one that it lacks. -/
def append (d e : Dictionary) : Dictionary :=
  e.entries.foldl (fun d (name, text) => d.insertNew name text) d

@[simp] theorem names_empty : empty.names = [] := rfl

@[simp] theorem names_erase (d : Dictionary) (name : String) :
    (d.erase name).names = d.names.filter (· != name) := by
  simp only [names, erase, List.filter_map]
  rfl

theorem names_insertNew (d : Dictionary) (name text : String) :
    (d.insertNew name text).names = if name ∈ d.names then d.names else d.names ++ [name] := by
  unfold insertNew
  split
  · rfl
  · simp [names]

end Dictionary

end WorkflowLens
