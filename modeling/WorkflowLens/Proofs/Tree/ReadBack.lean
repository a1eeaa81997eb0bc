import WorkflowLens.Document.Decode
import WorkflowLens.Proofs.Tree.Links
import WorkflowLens.Proofs.Tree.Names

/-!
# Reading a tree back

A tree keeps of a value what an editor shows of it: no tags, no null items, scalars as texts.
`Value.plain` is what is left, and `Tree.toValue` reads it off the shapes, names and texts of the
nodes.  The two are equal but for one thing.  A node has at most a text for a name, so a key that
is a collection leaves no trace: its entry reads as if the key were null, and two values that
differ in such a key only have the same tree.

The way goes over outlines.  The list of nodes is opened once, in `valueIn_of_nodes`, which says
that a node of the list reads as the outline it was made of; the rest is about outlines and values.

* `Yaml.Value.plain`, `Yaml.Value.asName`: what is kept of a value, and of a key.
* `Tree.toValue`: the value that a tree says.
* `Outline.toValue_ofValue`: an outline says what is kept of the value.
* `Tree.ofValue?_spec`: a value other than null has a tree, whose links agree and which says what
  is kept of the value.
-/

namespace WorkflowLens

/-! ## Plain values -/

namespace Yaml.Value

/-- The value under all tags. -/
def untagged : Value → Value
  | .tagged _ v => untagged v
  | v => v

/-- The string of a text, and null without one. -/
def ofText? : Option String → Value
  | some s => .string s
  | none => .null

/-- A key as far as a name can say it: a text is kept, and of a collection nothing is left. -/
def asName : Value → Value
  | .string s => .string s
  | _ => .null

mutual

/-- The value as far as an editor sees it: without tags, without the null items of sequences, and
with scalars other than null as texts.  What becomes of the keys of mappings is said by `key`. -/
def plain (key : Value → Value) : Value → Value
  | .null => .null
  | .bool true => .string "true"
  | .bool false => .string "false"
  | .number n => .string (String.ofList n.text)
  | .string s => .string s
  | .sequence items => .sequence (plainItems key items)
  | .mapping entries => .mapping (plainEntries key entries)
  | .tagged _ v => plain key v

/-- The items of a sequence without those that are null. -/
def plainItems (key : Value → Value) : List Value → List Value
  | [] => []
  | v :: items =>
    match plain key v with
    | .null => plainItems key items
    | w => w :: plainItems key items

/-- The entries of a mapping. -/
def plainEntries (key : Value → Value) : List (Value × Value) → List (Value × Value)
  | [] => []
  | (k, v) :: entries => (key (plain key k), plain key v) :: plainEntries key entries

end

end Yaml.Value

open Yaml (Value)

/-! ## Reading -/

namespace Tree

/-- The value of a node by the shapes, names and texts of its subtree, which is read at most `depth`
deep. -/
def valueIn (t : Tree) : (depth : Nat) → Nat → Value
  | 0, _ => .null
  | depth + 1, n =>
    let entries := (t.children n).map fun c => (Value.ofText? (t.name? c), t.valueIn depth c)
    match t.shape n with
    | .scalar => .ofText? (t.value? n)
    | .mapping => .mapping entries
    | .sequence => .sequence (entries.map Prod.snd)

/-- The value that a tree says. -/
def toValue (t : Tree) : Value := t.valueIn t.size root

end Tree

namespace Outline

mutual

/-- The value that an outline says. -/
def toValue : Outline → Value
  | .scalar text => .ofText? text
  | .collection .mapping children => .mapping (entries children)
  | .collection .sequence children => .sequence ((entries children).map Prod.snd)

/-- The names of children, as keys, and their values. -/
def entries : List (Option String × Outline) → List (Value × Value)
  | [] => []
  | (name, o) :: children => (.ofText? name, toValue o) :: entries children

end

end Outline

namespace Tree

variable {t : Tree}

mutual

/-- The nodes of an outline say its value. -/
theorem valueIn_of_nodes {number : Nat} {parent : Option Nat} {name : Option String}
    {index depth : Nat} : ∀ (o : Outline),
    o.nodes number parent name index <+: t.nodes.toList.drop number → o.size ≤ depth →
    t.valueIn depth number = o.toValue
  | .scalar text, h, hdepth => by
    rw [Outline.size] at hdepth
    obtain ⟨d, rfl⟩ : ∃ d, depth = d + 1 := ⟨depth - 1, by omega⟩
    rw [Outline.nodes] at h
    have hnode := (node_of_isPrefix h).1
    rw [valueIn, shape, value?, hnode, Outline.toValue]
  | .collection kind children, h, hdepth => by
    rw [Outline.size] at hdepth
    obtain ⟨d, rfl⟩ : ∃ d, depth = d + 1 := ⟨depth - 1, by omega⟩
    rw [Outline.nodes] at h
    obtain ⟨hnode, hinside⟩ := node_of_isPrefix h
    have hchildren : Outline.sizeOfChildren children ≤ d := by omega
    have hentries := entries_of_childNodes children hinside hchildren
    rw [valueIn, shape, Tree.children, hnode]
    simp only [hentries]
    cases kind with
    | mapping => rw [Outline.toValue]; rfl
    | sequence => rw [Outline.toValue]; rfl

/-- The nodes of children say their names and values. -/
theorem entries_of_childNodes {number parent index depth : Nat} :
    ∀ (children : List (Option String × Outline)),
    Outline.childNodes number parent index children <+: t.nodes.toList.drop number →
    Outline.sizeOfChildren children ≤ depth →
    (Outline.childNumbers number children).map
        (fun c => (Value.ofText? (t.name? c), t.valueIn depth c))
      = Outline.entries children
  | [], _, _ => by
    rw [Outline.childNumbers, Outline.entries, List.map_nil]
  | (name, o) :: children, h, hdepth => by
    rw [Outline.sizeOfChildren] at hdepth
    obtain ⟨hfirst, hrest⟩ := isPrefix_of_childNodes_cons h
    rw [Outline.childNumbers, Outline.entries, List.map_cons, (links_of_nodes hfirst).1,
      valueIn_of_nodes o hfirst (by omega), entries_of_childNodes children hrest (by omega)]

end

end Tree

/-! ## Values -/

open Yaml.Value

namespace Outline

theorem isNull_iff : ∀ v : Value, isNull v = true ↔ v.untagged = .null
  | .tagged _ v => by rw [isNull, untagged, isNull_iff v]
  | .null | .bool _ | .number _ | .string _ | .sequence _ | .mapping _ => by
    simp [isNull, untagged]

/-- Only null is null without its tags, whatever becomes of keys. -/
theorem isNull_iff_plain (key : Value → Value) : ∀ v : Value, isNull v = true ↔ v.plain key = .null
  | .tagged _ v => by rw [isNull, plain, isNull_iff_plain key v]
  | .null | .bool true | .bool false | .number _ | .string _ | .sequence _ | .mapping _ => by
    simp [isNull, plain]

/-- The name that a key gives says what `asName` leaves of the key. -/
theorem ofText?_scalarText? (key : Value → Value) :
    ∀ v : Value, ofText? (scalarText? v) = (v.plain key).asName
  | .tagged _ v => by rw [scalarText?, plain, ofText?_scalarText? key v]
  | .null | .bool true | .bool false | .number _ | .string _ | .sequence _ | .mapping _ => rfl

theorem plainItems_cons (key : Value → Value) (v : Value) (items : List Value) :
    plainItems key (v :: items)
      = if isNull v then plainItems key items else v.plain key :: plainItems key items := by
  rw [plainItems]
  split
  · next hnull => rw [if_pos ((isNull_iff_plain key v).mpr hnull)]
  · next hnull => rw [if_neg fun h => hnull ((isNull_iff_plain key v).mp h)]

mutual

/-- The outline of a value says all of the value but its keys that are collections. -/
theorem toValue_ofValue : ∀ v : Value, (ofValue v).toValue = v.plain asName
  | .null => rfl
  | .bool true => rfl
  | .bool false => rfl
  | .number _ => rfl
  | .string _ => rfl
  | .sequence items => by
    rw [ofValue, toValue, plain, map_snd_entries_ofItems items]
  | .mapping entries => by
    rw [ofValue, toValue, plain, entries_ofEntries entries]
  | .tagged _ v => by
    rw [ofValue, plain, toValue_ofValue v]

theorem map_snd_entries_ofItems :
    ∀ items : List Value, (entries (ofItems items)).map Prod.snd = plainItems asName items
  | [] => rfl
  | v :: items => by
    rw [ofItems, plainItems_cons]
    split
    · exact map_snd_entries_ofItems items
    · rw [entries, List.map_cons, toValue_ofValue v, map_snd_entries_ofItems items]

theorem entries_ofEntries :
    ∀ es : List (Value × Value), entries (ofEntries es) = plainEntries asName es
  | [] => rfl
  | (k, v) :: es => by
    rw [ofEntries, entries, plainEntries, ofText?_scalarText? asName k, toValue_ofValue v,
      entries_ofEntries es]

end

end Outline

namespace Tree

theorem toValue_ofOutline (o : Outline) : (ofOutline o).toValue = o.toValue := by
  rw [toValue, size_ofOutline]
  exact valueIn_of_nodes o (List.prefix_refl _) (Nat.le_refl _)

/-- **The tree of a value encodes it.**  Every value but null has a tree.  The links of the tree
agree, and reading it gives the value back, apart from keys that are collections. -/
theorem ofValue?_spec {v : Value} (h : v.untagged ≠ .null) :
    ∃ t, ofValue? v = some t ∧ t.LinksAgree ∧ t.toValue = v.plain asName := by
  refine ⟨ofOutline (Outline.ofValue v), ?_, (isPreorder_ofOutline _).linksAgree, ?_⟩
  · rw [ofValue?, if_neg (fun hnull => h ((Outline.isNull_iff v).mp hnull))]
  · rw [toValue_ofOutline, Outline.toValue_ofValue]

/-- A job with tags, a null item, a number and a flag. -/
theorem ofValue?_taggedJob :
    let v : Value := .tagged "job".toList (.mapping
      [(.string "needs", .sequence [.tagged "x".toList .null, .string "a", .bool true]),
       (.tagged "k".toList (.bool false), .null),
       (.sequence [.string "b"], .string "c")])
    v.untagged ≠ .null ∧
      ∃ t, ofValue? v = some t ∧ t.LinksAgree ∧ t.toValue = .mapping
        [(.string "needs", .sequence [.string "a", .string "true"]),
         (.string "false", .null),
         (.null, .string "c")] := by
  intro v
  have hv : v.untagged ≠ .null := by simp [v, untagged]
  exact ⟨hv, ofValue?_spec hv⟩

/-- A mapping whose only key is a sequence. -/
def keyedBy (item : String) : Value :=
  .mapping [(.sequence [.string item], .string "x")]

/-- Values that differ in a key that is a collection have one tree, so that no reading gives the
keys back. -/
theorem ofValue?_keyedBy :
    ofValue? (keyedBy "a") = ofValue? (keyedBy "b") ∧ (ofValue? (keyedBy "a")).isSome ∧
      (keyedBy "a").plain id ≠ (keyedBy "b").plain id ∧
      ¬ ∃ read : Tree → Value, ∀ v t, ofValue? v = some t → read t = v.plain id := by
  have hsame : ofValue? (keyedBy "a") = ofValue? (keyedBy "b") := rfl
  have hne : (keyedBy "a").plain id ≠ (keyedBy "b").plain id := by
    simp [keyedBy, plain, plainEntries, plainItems]
  refine ⟨hsame, rfl, hne, ?_⟩
  rintro ⟨read, hread⟩
  have ha := hread (keyedBy "a") _ rfl
  have hb := hread (keyedBy "b") _ rfl
  exact hne (ha.symm.trans hb)

end Tree

end WorkflowLens
