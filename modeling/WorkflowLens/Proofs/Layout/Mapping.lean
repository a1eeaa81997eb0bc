import WorkflowLens.Proofs.Layout.Line
import WorkflowLens.Proofs.Tree.Links
import WorkflowLens.Proofs.Tree.Names

/-!
# Where the keys of a block mapping are found

A block mapping is written as lines, one for each key, and the lines of a nested mapping follow the
line of its key.  The nodes of its tree in pre-order are the lines from top to bottom, so the
locator looks for one key after the other, each from the colon of the line before.  As long as no
line holds the key of the next line in its value, all keys are found where they stand, and the
first line that does is where this ends.

* `Block`, `Block.linesOf`: nested mappings and their lines.
* `Tree.AreBlocks`, `Forest.name?_of_areBlocks`: a tree with these mappings, and the keys by number.
* `LinesAt`, `LinesAt.anchor_search`: the walk along the lines finds each key at its place.
* `LinesAt.start_search_eq_iff`: exactly if no line holds the key of the next line.
* `start_span_eq_keyPlace_iff`: the same for the spans of a document.
-/

namespace WorkflowLens

/-! ## Pieces of text on lines of their own -/

theorem exists_getElem?_of_succ {α : Type} {xs : List α} {i : Nat} {x : α}
    (h : xs[i + 1]? = some x) : ∃ y, xs[i]? = some y :=
  ⟨_, List.getElem?_eq_getElem (Nat.lt_of_succ_lt (List.getElem?_eq_some_iff.mp h).1)⟩

namespace Text

/-- Pieces of text, each beginning on a new line. -/
def joinLines (pieces : List Text) : Text := ['\n'].intercalate pieces

/-- What stands before a piece. -/
def linesBefore (pieces : List Text) (i : Nat) : Text :=
  (pieces.take i).flatMap fun piece => piece ++ ['\n']

theorem joinLines_cons_cons (p q : Text) (pieces : List Text) :
    joinLines (p :: q :: pieces) = p ++ '\n' :: joinLines (q :: pieces) := by
  rw [joinLines, List.intercalate_cons_cons, List.append_assoc, List.singleton_append, joinLines]

theorem exists_joinLines_eq_append (p : Text) (pieces : List Text) :
    ∃ after, joinLines (p :: pieces) = p ++ after := by
  cases pieces with
  | nil => exact ⟨[], by rw [joinLines, List.intercalate_singleton, List.append_nil]⟩
  | cons q pieces => exact ⟨_, joinLines_cons_cons p q pieces⟩

/-- What stands before the last piece and the last piece are all. -/
theorem joinLines_concat (pieces : List Text) (p : Text) :
    joinLines (pieces ++ [p]) = linesBefore (pieces ++ [p]) pieces.length ++ p := by
  rw [linesBefore, List.take_left]
  induction pieces with
  | nil => rw [List.nil_append, joinLines, List.intercalate_singleton, List.flatMap_nil,
      List.nil_append]
  | cons q pieces ih =>
    cases pieces with
    | nil => simp [joinLines]
    | cons r pieces =>
      rw [List.cons_append, List.cons_append, joinLines_cons_cons, ← List.cons_append, ih]
      simp only [List.flatMap_cons, List.append_assoc, List.cons_append, List.nil_append]

/-- A piece stands after what is before it. -/
theorem exists_joinLines_eq {pieces : List Text} {i : Nat} {p : Text} (hp : pieces[i]? = some p) :
    ∃ after, joinLines pieces = linesBefore pieces i ++ (p ++ after) := by
  induction pieces generalizing i with
  | nil => simp at hp
  | cons r pieces ih =>
    cases i with
    | zero =>
      rw [List.getElem?_cons_zero, Option.some.injEq] at hp
      rw [hp]
      exact exists_joinLines_eq_append p pieces
    | succ i =>
      rw [List.getElem?_cons_succ] at hp
      obtain ⟨after, hafter⟩ := ih hp
      cases pieces with
      | nil => simp at hp
      | cons s pieces =>
        refine ⟨after, ?_⟩
        rw [joinLines_cons_cons, hafter]
        simp [linesBefore]

section write

variable {α : Type} (write : α → Text) (past : Text) (xs : List α)

/-- What stands before one of several things that are written on lines of their own after `past`. -/
def pastOf (i : Nat) : Text := past ++ linesBefore (xs.map write) i

theorem pastOf_zero : pastOf write past xs 0 = past := by simp [pastOf, linesBefore]

variable {xs} {i : Nat} {x : α} (hx : xs[i]? = some x)
include hx

theorem pastOf_succ :
    pastOf write past xs (i + 1) = pastOf write past xs i ++ write x ++ ['\n'] := by
  have hpiece : (xs.map write)[i]? = some (write x) := by rw [List.getElem?_map, hx]; rfl
  rw [pastOf, linesBefore, List.take_add_one, hpiece, Option.toList_some, List.flatMap_append,
    List.flatMap_singleton, pastOf, linesBefore]
  simp only [List.append_assoc]

theorem exists_eq_pastOf (after : Text) : ∃ rest,
    past ++ (joinLines (xs.map write) ++ after) = pastOf write past xs i ++ (write x ++ rest) := by
  have hpiece : (xs.map write)[i]? = some (write x) := by rw [List.getElem?_map, hx]; rfl
  obtain ⟨rest, hrest⟩ := exists_joinLines_eq hpiece
  refine ⟨rest ++ after, ?_⟩
  rw [hrest, pastOf]
  simp only [List.append_assoc]

end write

end Text

/-! ## Nested mappings -/

/-- An entry of a block mapping: its line, and the entries of the mapping below it, if its value is
one. -/
inductive Block where
  | entry (line : Line) (entries : List Block)

namespace Block

mutual

/-- The lines of an entry, from top to bottom. -/
def lines : Block → List Line
  | .entry line entries => line :: linesOf entries

/-- The lines of several entries. -/
def linesOf : List Block → List Line
  | [] => []
  | b :: bs => b.lines ++ linesOf bs

end

/-- Several entries as they are written. -/
def text (bs : List Block) : Text := Text.joinLines ((linesOf bs).map Line.text)

end Block

namespace Tree

mutual

/-- A node has the key of an entry, and its children are the entries below it.  A scalar has none
below it. -/
def IsBlock (t : Tree) (n : Nat) : Block → Prop
  | .entry line entries =>
    t.name? n = some (String.ofList line.key) ∧ t.AreBlocks (t.children n) entries

/-- Nodes are the given entries, in order. -/
def AreBlocks (t : Tree) : List Nat → List Block → Prop
  | [], [] => True
  | n :: ns, b :: bs => t.IsBlock n b ∧ t.AreBlocks ns bs
  | _, _ => False

end

variable {t : Tree}

/-- The nodes of entries in pre-order are the lines from top to bottom. -/
theorem Forest.name?_of_areBlocks {first : Nat} {parent : Option Nat} {index : Nat}
    {roots : List Nat} {stop : Nat} (h : Forest t first parent index roots stop) :
    ∀ bs, t.AreBlocks roots bs → stop = first + (Block.linesOf bs).length ∧
      ∀ i l, (Block.linesOf bs)[i]? = some l →
        t.name? (first + i) = some (String.ofList l.key) := by
  induction h with
  | nil =>
    intro bs hbs
    cases bs with
    | nil => simp [Block.linesOf]
    | cons b bs => simp [AreBlocks] at hbs
  | @cons first parent index roots stop _ _ inside after ihInside ihAfter =>
    intro bs hbs
    cases bs with
    | nil => simp [AreBlocks] at hbs
    | cons b bs =>
      obtain ⟨line, entries⟩ := b
      rw [AreBlocks, IsBlock] at hbs
      obtain ⟨⟨hname, hentries⟩, hrest⟩ := hbs
      obtain ⟨hinside, hinsideNames⟩ := ihInside entries hentries
      obtain ⟨hafter, hafterNames⟩ := ihAfter bs hrest
      rw [Block.linesOf, Block.lines]
      refine ⟨?_, fun i l hl => ?_⟩
      · rw [hafter, hinside, List.length_append, List.length_cons]
        omega
      · -- a line is that of the first entry, one below it, or one of the other entries
        rw [List.cons_append] at hl
        cases i with
        | zero =>
          rw [List.getElem?_cons_zero, Option.some.injEq] at hl
          rw [← hl]
          exact hname
        | succ i =>
          rw [List.getElem?_cons_succ] at hl
          rcases Nat.lt_or_ge i (Block.linesOf entries).length with hlt | hge
          · rw [List.getElem?_append_left hlt] at hl
            rw [← hinsideNames i l hl]
            congr 1
            omega
          · rw [List.getElem?_append_right hge] at hl
            rw [← hafterNames _ l hl, hinside]
            congr 1
            omega

/-! ## The walk along the lines -/

variable {text : Text}

/-- What is found for a node with a key. -/
theorem found?_of_name {n : Nat} {key : Text} (hname : t.name? n = some (String.ofList key))
    (cursor : Nat) :
    found? text cursor (t.node n) = (findKey? text cursor key).toOption.join := by
  rw [name?] at hname
  simp only [found?, findAnchor?, hname, String.toList_ofList]

/-- What a search finds is its anchor. -/
theorem anchor_search_succ {n : Nat} {a : Anchor}
    (h : found? text (t.search text n).anchor.next (t.node (n + 1)) = some a) :
    (t.search text (n + 1)).anchor = a := by
  rw [Search.anchor, found_search_succ, cursor_search_succ, h, Option.getD_some]

/-- The nodes after node `n` are the keys of lines, the search for the first of them begins behind
`past`, and the lines stand there. -/
structure LinesAt (t : Tree) (text : Text) (n : Nat) (past : Text) (lines : List Line)
    (after : Text) : Prop where
  text_eq : text = past ++ (Text.joinLines (lines.map Line.text) ++ after)
  name_eq : ∀ i l, lines[i]? = some l → t.name? (n + 1 + i) = some (String.ofList l.key)
  cursor_eq : (t.search text n).anchor.next = past.byteSize
  follows : ∀ l ∈ lines.head?, l.Follows past

namespace LinesAt

variable {n : Nat} {past after : Text} {lines : List Line} (h : LinesAt t text n past lines after)
include h

theorem exists_text_eq {i : Nat} {l : Line} (hl : lines[i]? = some l) :
    ∃ rest, text = Text.pastOf Line.text past lines i ++ (l.text ++ rest) := by
  rw [h.text_eq]
  exact Text.exists_eq_pastOf Line.text past hl after

theorem exists_text_eq_succ {i : Nat} {l m : Line} (hl : lines[i]? = some l)
    (hm : lines[i + 1]? = some m) :
    ∃ rest, text = Text.pastOf Line.text past lines i ++ (l.text ++ '\n' :: (m.text ++ rest)) := by
  obtain ⟨rest, hrest⟩ := h.exists_text_eq hm
  refine ⟨rest, ?_⟩
  rw [hrest, Text.pastOf_succ Line.text past hl]
  simp only [List.append_assoc, List.singleton_append]

/-- Every line stands after a margin. -/
theorem follows_pastOf {i : Nat} {l : Line} (hl : lines[i]? = some l) :
    l.Follows (Text.pastOf Line.text past lines i) := by
  cases i with
  | zero =>
    rw [Text.pastOf_zero]
    exact h.follows l (by rw [List.head?_eq_getElem?, hl]; rfl)
  | succ i =>
    obtain ⟨m, hm⟩ := exists_getElem?_of_succ hl
    rw [Text.pastOf_succ Line.text past hm]
    exact l.follows_newline _

theorem name?_eq {i : Nat} {l : Line} (hl : lines[i]? = some l) :
    t.name? (n + i + 1) = some (String.ofList l.key) := by
  rw [← h.name_eq i l hl]
  congr 1
  omega

/-- **As long as no line holds the key of the next line, every key is found where it stands.** -/
theorem anchor_search {i : Nat} {l : Line} (hl : lines[i]? = some l)
    (hfree : ∀ j k m, j < i → lines[j]? = some k → lines[j + 1]? = some m →
      ¬ k.HoldsKey m.key) :
    (t.search text (n + i + 1)).anchor = l.anchor (Text.pastOf Line.text past lines i) := by
  induction i generalizing l with
  | zero =>
    obtain ⟨rest, hrest⟩ := h.exists_text_eq hl
    have hfind := @Line.findKey?_first l _ rest (h.follows_pastOf hl)
    apply anchor_search_succ
    rw [Text.pastOf_zero] at hrest hfind ⊢
    rw [found?_of_name (h.name?_eq hl), h.cursor_eq, hrest, hfind]
    rfl
  | succ i ih =>
    obtain ⟨k, hk⟩ := exists_getElem?_of_succ hl
    obtain ⟨rest, hrest⟩ := h.exists_text_eq_succ hk hl
    have hbefore := ih hk fun j k' m hj => hfree j k' m (Nat.lt_succ_of_lt hj)
    have hfind := Line.findKey?_next l rest (h.follows_pastOf hk)
      (hfree i k l (Nat.lt_succ_self i) hk hl)
    apply anchor_search_succ
    rw [found?_of_name (h.name?_eq hl), ← Nat.add_assoc, hbefore, Line.anchor, hrest, hfind,
      Text.pastOf_succ Line.text past hk]
    rfl

/-- A key that the line before holds is found on that line. -/
theorem start_search_lt {i : Nat} {l m : Line} (hl : lines[i]? = some l)
    (hm : lines[i + 1]? = some m)
    (hbefore : (t.search text (n + i + 1)).anchor
      = l.anchor (Text.pastOf Line.text past lines i))
    (hholds : l.HoldsKey m.key) :
    (t.search text (n + (i + 1) + 1)).anchor.start
      < (m.anchor (Text.pastOf Line.text past lines (i + 1))).start := by
  obtain ⟨rest, hrest⟩ := h.exists_text_eq_succ hl hm
  obtain ⟨a, hfind, hstart⟩ := Line.exists_findKey?_next m rest (h.follows_pastOf hl) hholds
  have hfound : (t.search text (n + (i + 1) + 1)).anchor = a := by
    apply anchor_search_succ
    rw [found?_of_name (h.name?_eq hm), ← Nat.add_assoc, hbefore, Line.anchor, hrest, hfind]
    rfl
  rw [hfound, Line.anchor, Text.pastOf_succ Line.text past hl]
  simp only [Text.byteSize_append] at hstart ⊢
  simp only [Text.byteSize_cons, Text.byteSize_nil]
  have hpos := Char.utf8Size_pos '\n'
  omega

/-- **All keys are found where they stand exactly if no line holds the key of the next line.** -/
theorem start_search_eq_iff :
    (∀ i l, lines[i]? = some l → (t.search text (n + i + 1)).anchor.start
        = Text.byteSize (Text.pastOf Line.text past lines i ++ l.indent)) ↔
      Line.KeepKeys lines := by
  constructor
  · intro hplaces i
    -- up to the first line that holds the next key everything is found where it stands
    induction i using Nat.strongRecOn with
    | ind i ih =>
      intro l m hl hm hholds
      have hbefore := h.anchor_search hl fun j k m hj => ih j hj k m
      have hlt := h.start_search_lt hl hm hbefore hholds
      rw [hplaces (i + 1) m hm, Line.anchor] at hlt
      exact Nat.lt_irrefl _ hlt
  · intro hfree i l hl
    rw [h.anchor_search hl fun j k m _ => hfree j k m, Line.anchor]

end LinesAt

/-! ## Documents -/

/-- The lines of a block mapping as those of a document. -/
theorem IsLocated.linesAt {bs : List Block} {after : Text} (h : t.IsLocated text)
    (htext : text = Block.text bs ++ after) (hbs : t.AreBlocks (t.children root) bs) :
    LinesAt t text root [] (Block.linesOf bs) after ∧ t.size = 1 + (Block.linesOf bs).length := by
  have hforest := h.isPreorder.forest_children (n := root) h.isPreorder.size_pos
  have hstop : t.stop root = t.size := h.isPreorder.stop_root
  obtain ⟨hsize, hnames⟩ := hforest.name?_of_areBlocks bs hbs
  refine ⟨⟨by rw [htext, Block.text]; rfl, hnames, rfl, fun l _ => l.follows_nil⟩, ?_⟩
  rw [← hstop, hsize]
  rfl

/-- The place of the key of a line: behind the lines before it and its own indentation. -/
def keyPlace (lines : List Line) (i : Nat) (l : Line) : Nat :=
  Text.byteSize (Text.pastOf Line.text [] lines i ++ l.indent)

/-- **In a document that is a block mapping, the nodes with names are the lines, and all of them
start at their keys exactly if no line holds the key of the next line in its value.** -/
theorem start_span_eq_keyPlace_iff {bs : List Block} {after : Text} (h : t.IsLocated text)
    (htext : text = Block.text bs ++ after) (hbs : t.AreBlocks (t.children root) bs) :
    (∀ n name, t.name? n = some name ↔ ∃ i l, (Block.linesOf bs)[i]? = some l ∧ n = i + 1 ∧
        name = String.ofList l.key) ∧
      ((∀ i l, (Block.linesOf bs)[i]? = some l →
          (t.span (i + 1)).start = keyPlace (Block.linesOf bs) i l) ↔
        Line.KeepKeys (Block.linesOf bs)) := by
  obtain ⟨hlines, hsize⟩ := h.linesAt htext hbs
  have hname : ∀ i l, (Block.linesOf bs)[i]? = some l →
      t.name? (i + 1) = some (String.ofList l.key) := by
    intro i l hl
    rw [← hlines.name?_eq hl, root, Nat.zero_add]
  constructor
  · intro n name
    constructor
    · intro hn
      cases n with
      | zero =>
        have hroot := h.name?_root
        rw [root, hn] at hroot
        cases hroot
      | succ i =>
        have hlt : i + 1 < t.size := by
          by_contra hge
          rw [name?, node_eq_absent (Nat.le_of_not_lt hge)] at hn
          cases hn
        have hl := List.getElem?_eq_getElem (l := Block.linesOf bs) (i := i) (by omega)
        refine ⟨i, _, hl, rfl, ?_⟩
        rw [hname i _ hl, Option.some.injEq] at hn
        exact hn.symm
    · rintro ⟨i, l, hl, rfl, rfl⟩
      exact hname i l hl
  · rw [← hlines.start_search_eq_iff]
    refine forall_congr' fun i => forall_congr' fun l => imp_congr_right fun hl => ?_
    have hlt := (List.getElem?_eq_some_iff.mp hl).1
    rw [h.start_span (by omega), keyPlace, root, Nat.zero_add]

/-! ### A mapping with nested ones

A value holds keys of other lines, in quotes and with their colons.  One of them is not the key of
the next line, and the other one is only the end of a word.
-/

/-- Two keys, the first of which holds a mapping in a mapping. -/
def nestedBlocks : List Block :=
  [.entry { indent := [], key := "jobs".toList, space := [], rest := [] }
    [.entry { indent := "  ".toList, key := "build".toList, space := [], rest := [] }
      [.entry { indent := "    ".toList, key := "name".toList, space := [],
                rest := " 'env: rerun: x'".toList } [],
        .entry { indent := "    ".toList, key := "run".toList, space := [],
                 rest := " a - b".toList } []]],
    .entry { indent := [], key := "env".toList, space := [' '], rest := " \"run: y\"".toList } []]

/-- The tree of these mappings. -/
def nestedBlocksTree : Tree :=
  ⟨#[⟨none, none, .mapping, none, [1, 5], 0, 6, Span.upTo 0 71⟩,
    ⟨some "jobs", none, .mapping, some 0, [2], 0, 5, Span.upTo 0 56⟩,
    ⟨some "build", none, .mapping, some 1, [3, 4], 0, 5, Span.upTo 8 56⟩,
    ⟨some "name", some "env: rerun: x", .scalar, some 2, [], 0, 4, Span.upTo 19 45⟩,
    ⟨some "run", some "a - b", .scalar, some 2, [], 1, 5, Span.upTo 45 56⟩,
    ⟨some "env", some "run: y", .scalar, some 0, [], 1, 6, Span.upTo 56 71⟩]⟩

theorem decode_nestedBlocks :
    decode (Block.text nestedBlocks ++ ['\n']) = .ok nestedBlocksTree := by
  decide +kernel

theorem areBlocks_nestedBlocks :
    nestedBlocksTree.AreBlocks (nestedBlocksTree.children root) nestedBlocks := by
  simp [nestedBlocks, nestedBlocksTree, AreBlocks, IsBlock, children, name?, node, root]

/-- All keys of this document are found where they stand, so none of its lines holds the key of the
next one. -/
theorem keepKeys_nestedBlocks :
    decode (Block.text nestedBlocks ++ ['\n']) = .ok nestedBlocksTree ∧
      nestedBlocksTree.AreBlocks (nestedBlocksTree.children root) nestedBlocks ∧
      Line.KeepKeys (Block.linesOf nestedBlocks) := by
  refine ⟨decode_nestedBlocks, areBlocks_nestedBlocks, ?_⟩
  refine (start_span_eq_keyPlace_iff (isLocated_of_decode decode_nestedBlocks) rfl
    areBlocks_nestedBlocks).2.mp fun i l hl => ?_
  match i, hl with
  | 0, hl => cases hl; rfl
  | 1, hl => cases hl; rfl
  | 2, hl => cases hl; rfl
  | 3, hl => cases hl; rfl
  | 4, hl => cases hl; rfl

/-! ### A value that holds the next key

In `a: x b:c` the colon belongs to the value, because no blank is after it.  The locator does not
ask for that blank.
-/

/-- Two keys, the first of which has a value with the second one in it. -/
def capturedBlocks : List Block :=
  [.entry { indent := [], key := ['a'], space := [], rest := " x b:c".toList } [],
    .entry { indent := [], key := ['b'], space := [], rest := " d".toList } []]

/-- The tree of these keys: the second one is found at offset 5, in the value of the first one. -/
def capturedTree : Tree :=
  ⟨#[⟨none, none, .mapping, none, [1, 2], 0, 3, Span.upTo 0 14⟩,
    ⟨some "a", some "x b:c", .scalar, some 0, [], 0, 2, Span.upTo 0 5⟩,
    ⟨some "b", some "d", .scalar, some 0, [], 1, 3, Span.upTo 5 14⟩]⟩

/-- **A key of a block mapping is found in the value of the line before.** -/
theorem decode_capturedBlocks :
    decode (Block.text capturedBlocks ++ ['\n']) = .ok capturedTree ∧
      capturedTree.AreBlocks (capturedTree.children root) capturedBlocks ∧
      ∃ l, (Block.linesOf capturedBlocks)[1]? = some l ∧ capturedTree.name? 2 = some "b" ∧
        (capturedTree.span 2).start ≠ keyPlace (Block.linesOf capturedBlocks) 1 l := by
  refine ⟨by decide +kernel, ?_, _, rfl, rfl, ?_⟩
  · simp [capturedBlocks, capturedTree, AreBlocks, IsBlock, children, name?, node, root]
  · decide

end Tree

end WorkflowLens
