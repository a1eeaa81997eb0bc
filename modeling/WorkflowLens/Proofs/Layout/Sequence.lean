import WorkflowLens.Proofs.Layout.Mapping
import WorkflowLens.Proofs.Tree.Spans

/-!
# Where the items of a block sequence are found

Nothing in the node of an item says at which dash the item begins.  The locator takes the first
item marker after the colon of the key before it, that is a dash between blanks, or a brace.  For
the first item this is its own dash, since only a margin lies between.  For every other item the
value of the last line of the item before is searched first, and a marker in that value is taken.

So the values of all other lines do not matter, and neither does the last item.

* `Text.HasMarker`, `markerIn?_append`: a piece of text is passed over if it has no marker.
* `BlockItem`, `BlockItem.HoldsMarker`: an item as it is written, and a marker in the value of its
  last line.
* `ItemsAt.anchor_succ`, `ItemsAt.start_search_lt`: an item is found at its dash, or on the last
  line of the item before.
* `start_span_eq_dash_iff`: exactly if no such line holds a marker all items start at their dashes,
  and then the node at an offset is in the item of the last dash before it.
-/

namespace WorkflowLens

/-! ## Markers in a piece of text -/

namespace Text

/-- An item marker stands in a piece of text after the given character and before a blank: the
opener, or a dash between blanks. -/
def HasMarker (opener : Char) (before : Option Char) (t : Text) : Prop :=
  opener ∈ t ∨ ∃ s u, t = s ++ '-' :: u ∧ (s.getLast?.or before).all isBlank = true ∧
    u.head?.all isBlank = true

variable {opener : Char} {before : Option Char}

theorem not_hasMarker_nil : ¬ HasMarker opener before [] := by
  rintro (hmem | ⟨s, u, ht, -⟩)
  · exact List.not_mem_nil hmem
  · exact List.append_ne_nil_of_right_ne_nil s (List.cons_ne_nil '-' u) ht.symm

/-- A marker is the first character or stands after it. -/
theorem hasMarker_cons {c : Char} {t : Text} :
    HasMarker opener before (c :: t) ↔
      (c = '-' ∧ before.all isBlank = true ∧ t.head?.all isBlank = true) ∨ c = opener ∨
        HasMarker opener (some c) t := by
  constructor
  · rintro (hmem | ⟨s, u, ht, hblank, hnext⟩)
    · rcases List.mem_cons.mp hmem with rfl | hmem
      · exact .inr (.inl rfl)
      · exact .inr (.inr (.inl hmem))
    · cases s with
      | nil =>
        rw [List.nil_append, List.cons.injEq] at ht
        rw [ht.1, ht.2]
        exact .inl ⟨rfl, hblank, hnext⟩
      | cons d s =>
        rw [List.cons_append, List.cons.injEq] at ht
        rw [getLast?_cons_or, ← ht.1] at hblank
        exact .inr (.inr (.inr ⟨s, u, ht.2, hblank, hnext⟩))
  · rintro (⟨rfl, hblank, hnext⟩ | rfl | hmem | ⟨s, u, rfl, hblank, hnext⟩)
    · exact .inr ⟨[], t, rfl, hblank, hnext⟩
    · exact .inl (List.mem_cons_self ..)
    · exact .inl (List.mem_cons_of_mem c hmem)
    · exact .inr ⟨c :: s, u, rfl, by rw [getLast?_cons_or]; exact hblank, hnext⟩

end Text

namespace Tree

variable {opener : Char} {before : Option Char} {s t : Text}

theorem isMarker_iff {c : Char} (ht : t.head?.all Text.isBlank = true) :
    ((c == '-' && before.all Text.isBlank && (s ++ t).head?.all Text.isBlank) || c == opener)
        = true ↔
      (c = '-' ∧ before.all Text.isBlank = true ∧ s.head?.all Text.isBlank = true) ∨
        c = opener := by
  have hhead : (s ++ t).head?.all Text.isBlank = s.head?.all Text.isBlank := by
    cases s with
    | nil => exact ht
    | cons d s => rfl
  rw [hhead, Bool.or_eq_true, Bool.and_eq_true, Bool.and_eq_true, beq_iff_eq, beq_iff_eq, and_assoc]

/-- A piece of text without a marker is passed over. -/
theorem markerIn?_append (ht : t.head?.all Text.isBlank = true)
    (hs : ¬ Text.HasMarker opener before s) (offset : Nat) :
    markerIn? opener offset before (s ++ t)
      = markerIn? opener (offset + s.byteSize) (s.getLast?.or before) t := by
  induction s generalizing before offset with
  | nil => rfl
  | cons c s ih =>
    rw [Text.hasMarker_cons, ← or_assoc, not_or] at hs
    rw [List.cons_append, markerIn?, if_neg (fun hc => hs.1 ((isMarker_iff ht).mp hc)), ih hs.2,
      Text.getLast?_cons_or, Text.byteSize_cons, Nat.add_assoc]

/-- In a piece of text with a marker a marker is found. -/
theorem exists_markerIn?_append (ht : t.head?.all Text.isBlank = true)
    (hs : Text.HasMarker opener before s) (offset : Nat) :
    ∃ a, markerIn? opener offset before (s ++ t) = some a ∧ a.start < offset + s.byteSize := by
  induction s generalizing before offset with
  | nil => exact absurd hs Text.not_hasMarker_nil
  | cons c s ih =>
    have hpos := c.utf8Size_pos
    rw [List.cons_append, markerIn?]
    split
    · refine ⟨_, rfl, ?_⟩
      rw [Text.byteSize_cons]
      dsimp only
      omega
    · next hc =>
      rw [Text.hasMarker_cons, ← or_assoc] at hs
      have hrest := hs.resolve_left fun hfirst => hc ((isMarker_iff ht).mpr hfirst)
      obtain ⟨a, ha, hlt⟩ := ih hrest (offset + c.utf8Size)
      refine ⟨a, ha, ?_⟩
      rw [Text.byteSize_cons]
      omega

theorem markerIn?_newline (offset : Nat) :
    markerIn? '\x7b' offset before ('\n' :: t)
      = markerIn? '\x7b' (offset + Text.byteSize ['\n']) (some '\n') t := by
  rw [markerIn?]
  rfl

/-- After a margin the dash is found, if blanks are on both sides of it. -/
theorem markerIn?_dash {margin : Text} (hmargin : ∀ c ∈ margin, Text.isBlank c = true)
    (hopener : Text.isBlank opener = false)
    (hbefore : (margin.getLast?.or before).all Text.isBlank = true)
    (ht : t.head?.all Text.isBlank = true) (offset : Nat) :
    markerIn? opener offset before (margin ++ '-' :: t)
      = some ⟨offset + margin.byteSize, offset + margin.byteSize + '-'.utf8Size⟩ := by
  induction margin generalizing before offset with
  | nil =>
    have hblank : before.all Text.isBlank = true := hbefore
    rw [List.nil_append, markerIn?, hblank, ht]
    rfl
  | cons c margin ih =>
    have hc := hmargin c (List.mem_cons_self ..)
    have hno : ¬ (c = '-' ∨ c = opener) := by
      rintro (rfl | rfl)
      · exact absurd hc (by decide)
      · rw [hopener] at hc
        cases hc
    rw [not_or] at hno
    rw [Text.getLast?_cons_or] at hbefore
    rw [List.cons_append, markerIn?, beq_false_of_ne hno.1, beq_false_of_ne hno.2,
      ih (fun d hd => hmargin d (List.mem_cons_of_mem c hd)) hbefore, Text.byteSize_cons]
    simp only [Bool.false_and, Bool.or_self, Bool.false_eq_true, if_false, Nat.add_assoc]

end Tree

/-! ## Items -/

/-- An item of a block sequence: a dash, and a block mapping that begins on the same line. -/
structure BlockItem where
  /-- The blanks before the dash.  Empty lines before the item belong to it. -/
  margin : Text
  entries : List Block
  all_margin : margin.all Text.isBlank = true := by decide
  any_line : ((Block.linesOf entries).head?.any fun l => !l.indent.isEmpty) = true := by decide

namespace BlockItem

/-- The lines of the mapping; the first one stands behind the dash. -/
def lines (item : BlockItem) : List Line := Block.linesOf item.entries

/-- The item as it is written. -/
def text (item : BlockItem) : Text :=
  item.margin ++ '-' :: Text.joinLines (item.lines.map Line.text)

/-- The anchor of an item at its dash if the item comes after `past`. -/
def anchor (item : BlockItem) (past : Text) : Tree.Anchor :=
  ⟨Text.byteSize (past ++ item.margin), Text.byteSize (past ++ item.margin ++ ['-'])⟩

/-- An item may stand after a text: before the dash is a margin that ends with a blank. -/
structure Follows (item : BlockItem) (past : Text) : Prop where
  isMargin : Text.IsMargin (past ++ item.margin)
  blank : (past ++ item.margin).getLast?.all Text.isBlank = true

/-- The value on the last line of the item holds an item marker: a brace, or a dash between
blanks. -/
def HoldsMarker (item : BlockItem) : Prop :=
  ∃ l ∈ item.lines.getLast?, Text.HasMarker '\x7b' (some ':') l.rest

variable (item : BlockItem)

theorem margin_blank : ∀ c ∈ item.margin, Text.isBlank c = true :=
  List.all_eq_true.mp item.all_margin

/-- The first line is separated from the dash. -/
theorem exists_lines_eq_cons : ∃ l ls, item.lines = l :: ls ∧ l.indent ≠ [] := by
  have hany := item.any_line
  rw [← lines] at hany
  cases hlines : item.lines with
  | nil => simp [hlines] at hany
  | cons l ls => exact ⟨l, ls, rfl, by simpa [hlines] using hany⟩

theorem follows_newline (past : Text) : item.Follows (past ++ ['\n']) where
  isMargin := by
    rw [List.append_assoc]
    exact Text.isMargin_append_newline past item.margin_blank
  blank := by
    rw [List.append_assoc, List.singleton_append, List.getLast?_append_cons]
    cases hlast : ('\n' :: item.margin).getLast? with
    | none => rfl
    | some c =>
      rcases List.mem_cons.mp (List.mem_of_getLast? hlast) with rfl | hmem
      · rfl
      · exact item.margin_blank c hmem

/-- Behind the dash is a blank. -/
theorem head?_joinLines (after : Text) :
    (Text.joinLines (item.lines.map Line.text) ++ after).head?.all Text.isBlank = true := by
  obtain ⟨l, ls, hls, hindent⟩ := item.exists_lines_eq_cons
  obtain ⟨rest, hrest⟩ := Text.exists_joinLines_eq_append l.text (ls.map Line.text)
  obtain ⟨c, indent, hc⟩ := List.exists_cons_of_ne_nil hindent
  have hblank := l.indent_blank c (by rw [hc]; exact List.mem_cons_self ..)
  rw [hls, List.map_cons, hrest, Line.text, Line.lead, hc]
  exact hblank

/-- The first marker behind `past` is the dash of an item that stands there. -/
theorem markerIn?_own {past : Text} (h : item.Follows past) (after : Text) :
    Tree.markerIn? '\x7b' past.byteSize past.getLast? (item.text ++ after)
      = some (item.anchor past) := by
  have hlast : (item.margin.getLast?.or past.getLast?).all Text.isBlank = true := by
    rw [← List.getLast?_append]
    exact h.blank
  have hopener : Text.isBlank '\x7b' = false := by decide
  have hdash := Tree.markerIn?_dash item.margin_blank hopener hlast (item.head?_joinLines after)
    past.byteSize
  rw [text, List.append_assoc, List.cons_append, hdash, anchor]
  simp only [Text.byteSize_append, Text.byteSize_cons, Text.byteSize_nil, Nat.add_zero]

theorem exists_lines_eq_concat : ∃ ls l, item.lines = ls ++ [l] := by
  obtain ⟨l, ls, hls, -⟩ := item.exists_lines_eq_cons
  refine (List.eq_nil_or_concat' item.lines).resolve_left ?_
  rw [hls]
  exact List.cons_ne_nil l ls

end BlockItem

namespace Tree

variable {t : Tree} {text past after : Text} {s : Nat} {items : List BlockItem}

/-- A node without a name is a mapping with the entries of an item. -/
structure IsItem (t : Tree) (n : Nat) (item : BlockItem) : Prop where
  name_eq : t.name? n = none
  shape_eq : t.shape n = .mapping
  entries_eq : t.AreBlocks (t.children n) item.entries

/-- What is found for an item. -/
theorem IsItem.found?_eq {n : Nat} {item : BlockItem} (h : t.IsItem n item) (cursor : Nat) :
    found? text cursor (t.node n) = (findMarker? text cursor '\x7b').toOption.join := by
  have hname := h.name_eq
  have hshape := h.shape_eq
  rw [name?] at hname
  rw [shape] at hshape
  simp only [found?, findAnchor?, hname, hshape]

/-- The children of node `s` are items, the search for the first of them begins behind `past`, and
the items stand there. -/
structure ItemsAt (t : Tree) (text : Text) (s : Nat) (past : Text) (items : List BlockItem)
    (after : Text) : Prop where
  text_eq : text = past ++ (Text.joinLines (items.map BlockItem.text) ++ after)
  items_eq : List.Forall₂ t.IsItem (t.children s) items
  cursor_eq : (t.search text s).anchor.next = past.byteSize
  follows : ∀ item ∈ items.head?, item.Follows past

namespace ItemsAt

variable (h : ItemsAt t text s past items after)
include h

theorem exists_text_eq {i : Nat} {item : BlockItem} (hitem : items[i]? = some item) :
    ∃ rest, text = Text.pastOf BlockItem.text past items i ++ (item.text ++ rest) := by
  rw [h.text_eq]
  exact Text.exists_eq_pastOf BlockItem.text past hitem after

theorem follows_pastOf {i : Nat} {item : BlockItem} (hitem : items[i]? = some item) :
    item.Follows (Text.pastOf BlockItem.text past items i) := by
  cases i with
  | zero =>
    rw [Text.pastOf_zero]
    exact h.follows item (by rw [List.head?_eq_getElem?, hitem]; rfl)
  | succ i =>
    obtain ⟨before, hbefore⟩ := exists_getElem?_of_succ hitem
    rw [Text.pastOf_succ BlockItem.text past hbefore]
    exact item.follows_newline _

theorem isItem {i n : Nat} {item : BlockItem} (hn : (t.children s)[i]? = some n)
    (hitem : items[i]? = some item) : t.IsItem n item := by
  obtain ⟨hi, rfl⟩ := List.getElem?_eq_some_iff.mp hn
  obtain ⟨hi', rfl⟩ := List.getElem?_eq_some_iff.mp hitem
  exact List.forall₂_iff_get.mp h.items_eq |>.2 i hi hi'

section step

variable (hpre : t.IsPreorder) (hs : s < t.size)
include hpre hs

omit h in
theorem lt_size {i n : Nat} (hn : (t.children s)[i]? = some n) : n < t.size :=
  lt_size_of_parent ((hpre.mem_children_iff hs).mp (List.mem_of_getElem? hn))

/-- The lines of an item that is found at its dash stand behind the dash. -/
theorem linesAt {i n : Nat} {item : BlockItem} (hn : (t.children s)[i]? = some n)
    (hitem : items[i]? = some item)
    (hplaced : (t.search text n).anchor = item.anchor (Text.pastOf BlockItem.text past items i)) :
    (∃ rest, LinesAt t text n (Text.pastOf BlockItem.text past items i ++ item.margin ++ ['-'])
        item.lines rest) ∧ t.stop n = n + 1 + item.lines.length := by
  have hforest := hpre.forest_children (lt_size hpre hs hn)
  obtain ⟨hstop, hnames⟩ := hforest.name?_of_areBlocks _ (h.isItem hn hitem).entries_eq
  obtain ⟨rest, hrest⟩ := h.exists_text_eq hitem
  obtain ⟨first, ls, hls, hindent⟩ := item.exists_lines_eq_cons
  refine ⟨⟨rest, ?_, hnames, ?_, fun l hl => ?_⟩, hstop⟩
  · rw [hrest, BlockItem.text]
    simp only [List.append_assoc, List.cons_append, List.nil_append]
  · rw [hplaced, BlockItem.anchor]
  · rw [hls, List.head?_cons, Option.mem_some] at hl
    subst hl
    exact ⟨(h.follows_pastOf hitem).isMargin.append (by simp), .inr hindent⟩

/-- After an item that is found at its dash the search goes on at the value of its last line. -/
theorem cursor_search_stop {i n : Nat} {item : BlockItem} (hn : (t.children s)[i]? = some n)
    (hitem : items[i]? = some item) (hkeys : Line.KeepKeys item.lines)
    (hplaced : (t.search text n).anchor = item.anchor (Text.pastOf BlockItem.text past items i)) :
    ∃ l ahead, l ∈ item.lines.getLast? ∧
      (t.search text (t.stop n)).cursor = Text.byteSize (ahead ++ [':']) ∧
      Text.pastOf BlockItem.text past items i ++ item.text = ahead ++ [':'] ++ l.rest := by
  obtain ⟨⟨rest, hlines⟩, hstop⟩ := h.linesAt hpre hs hn hitem hplaced
  obtain ⟨ls, l, hl⟩ := item.exists_lines_eq_concat
  have hlast : item.lines[ls.length]? = some l := by rw [hl, List.getElem?_concat_length]
  have hanchor := hlines.anchor_search hlast fun j k m _ => hkeys j k m
  have hlength : n + ls.length + 1 + 1 = t.stop n := by
    rw [hstop, hl, List.length_append, List.length_singleton]
    omega
  have hpast : Text.pastOf Line.text
      (Text.pastOf BlockItem.text past items i ++ item.margin ++ ['-']) item.lines ls.length
      = Text.pastOf BlockItem.text past items i ++ item.margin ++ ['-']
        ++ Text.linesBefore (item.lines.map Line.text) ls.length := rfl
  rw [hpast] at hanchor
  refine ⟨l, Text.pastOf BlockItem.text past items i ++ item.margin ++ ['-']
      ++ Text.linesBefore (item.lines.map Line.text) ls.length ++ (l.indent ++ (l.key ++ l.space)),
    by rw [hl, List.getLast?_concat]; rfl, ?_, ?_⟩
  · rw [← hlength, cursor_search_succ, hanchor, Line.anchor, Line.lead]
    simp only [List.append_assoc]
  · have hjoin := Text.joinLines_concat (ls.map Line.text) l.text
    rw [List.length_map] at hjoin
    rw [BlockItem.text, hl, List.map_append, List.map_singleton, hjoin]
    simp only [Line.text, Line.lead, List.append_assoc, List.cons_append, List.nil_append]

/-- **The first item is found at its dash.** -/
theorem anchor_zero {n : Nat} {item : BlockItem} (hn : (t.children s)[0]? = some n)
    (hitem : items[0]? = some item) :
    (t.search text n).anchor = item.anchor (Text.pastOf BlockItem.text past items 0) := by
  have hfirst := (hpre.forest_children hs).getElem?_roots.1 n hn
  obtain ⟨rest, hrest⟩ := h.exists_text_eq hitem
  have hfollows := h.follows_pastOf hitem
  have hisItem := h.isItem hn hitem
  rw [Text.pastOf_zero] at hrest hfollows ⊢
  subst hfirst
  apply anchor_search_succ
  rw [hisItem.found?_eq, h.cursor_eq, hrest, findMarker?_append, item.markerIn?_own hfollows]
  rfl

/-- What the search for the next item finds after an item that is found at its dash. -/
theorem exists_found?_next {i n m : Nat} {item next : BlockItem} (hn : (t.children s)[i]? = some n)
    (hm : (t.children s)[i + 1]? = some m) (hitem : items[i]? = some item)
    (hnext : items[i + 1]? = some next) (hkeys : Line.KeepKeys item.lines)
    (hplaced : (t.search text n).anchor = item.anchor (Text.pastOf BlockItem.text past items i)) :
    ∃ l ahead rest, l ∈ item.lines.getLast? ∧ (t.search text m).found
        = markerIn? '\x7b' (Text.byteSize (ahead ++ [':'])) (some ':')
            (l.rest ++ '\n' :: (next.text ++ rest)) ∧
      Text.pastOf BlockItem.text past items i ++ item.text = ahead ++ [':'] ++ l.rest := by
  obtain ⟨l, ahead, hl, hcursor, hahead⟩ :=
    h.cursor_search_stop hpre hs hn hitem hkeys hplaced
  obtain ⟨rest, hrest⟩ := h.exists_text_eq hnext
  refine ⟨l, ahead, rest, hl, ?_, hahead⟩
  have hmn : m = t.stop n := (hpre.forest_children hs).getElem?_roots.2.1 i n m hn hm
  have htext : text = ahead ++ [':'] ++ (l.rest ++ '\n' :: (next.text ++ rest)) := by
    rw [hrest, Text.pastOf_succ BlockItem.text past hitem, hahead]
    simp only [List.append_assoc, List.cons_append, List.nil_append]
  obtain ⟨k, hk⟩ : ∃ k, m = k + 1 := by
    have hlt := hpre.lt_stop (lt_size hpre hs hn)
    exact ⟨m - 1, by omega⟩
  have hisItem := h.isItem hm hnext
  rw [← hmn] at hcursor
  subst hk
  rw [found_search_succ, hisItem.found?_eq, hcursor, htext, findMarker?_append,
    List.getLast?_concat]
  rfl

/-- **If the last line of an item holds no marker, the next item is found at its dash.** -/
theorem anchor_succ {i n m : Nat} {item next : BlockItem} (hn : (t.children s)[i]? = some n)
    (hm : (t.children s)[i + 1]? = some m) (hitem : items[i]? = some item)
    (hnext : items[i + 1]? = some next) (hkeys : Line.KeepKeys item.lines)
    (hplaced : (t.search text n).anchor = item.anchor (Text.pastOf BlockItem.text past items i))
    (hfree : ¬ item.HoldsMarker) :
    (t.search text m).anchor = next.anchor (Text.pastOf BlockItem.text past items (i + 1)) := by
  obtain ⟨l, ahead, rest, hl, hfound, hahead⟩ :=
    h.exists_found?_next hpre hs hn hm hitem hnext hkeys hplaced
  have hpast : Text.pastOf BlockItem.text past items (i + 1)
      = ahead ++ [':'] ++ l.rest ++ ['\n'] := by
    rw [Text.pastOf_succ BlockItem.text past hitem, hahead]
  have hown := next.markerIn?_own (h.follows_pastOf hnext) rest
  rw [hpast, List.getLast?_concat, Text.byteSize_append _ ['\n'], Text.byteSize_append _ l.rest]
    at hown
  rw [markerIn?_append (by rfl) fun hmarker => hfree ⟨l, hl, hmarker⟩, markerIn?_newline] at hfound
  rw [Search.anchor, hfound, hpast, hown, Option.getD_some]

/-- If the last line of an item holds a marker, the next item is found on that line. -/
theorem start_search_lt {i n m : Nat} {item next : BlockItem} (hn : (t.children s)[i]? = some n)
    (hm : (t.children s)[i + 1]? = some m) (hitem : items[i]? = some item)
    (hnext : items[i + 1]? = some next) (hkeys : Line.KeepKeys item.lines)
    (hplaced : (t.search text n).anchor = item.anchor (Text.pastOf BlockItem.text past items i))
    (hholds : item.HoldsMarker) :
    (t.search text m).anchor.start
      < (next.anchor (Text.pastOf BlockItem.text past items (i + 1))).start := by
  obtain ⟨l, ahead, rest, hl, hfound, hahead⟩ :=
    h.exists_found?_next hpre hs hn hm hitem hnext hkeys hplaced
  obtain ⟨l', hl', hmarker⟩ := hholds
  cases Option.mem_unique hl hl'
  obtain ⟨a, ha, hlt⟩ := exists_markerIn?_append (t := '\n' :: (next.text ++ rest)) (by rfl) hmarker
    (Text.byteSize (ahead ++ [':']))
  rw [Search.anchor, hfound, ha, Option.getD_some, BlockItem.anchor,
    Text.pastOf_succ BlockItem.text past hitem, hahead]
  simp only [Text.byteSize_append] at hlt ⊢
  omega

/-- As long as no item holds a marker on its last line, every item is found at its dash. -/
theorem anchor_search (hkeys : ∀ item ∈ items, Line.KeepKeys item.lines) {i n : Nat}
    {item : BlockItem} (hn : (t.children s)[i]? = some n) (hitem : items[i]? = some item)
    (hfree : ∀ j before, j < i → items[j]? = some before → ¬ before.HoldsMarker) :
    (t.search text n).anchor = item.anchor (Text.pastOf BlockItem.text past items i) := by
  induction i generalizing n item with
  | zero => exact h.anchor_zero hpre hs hn hitem
  | succ i ih =>
    obtain ⟨m, hm⟩ := exists_getElem?_of_succ hn
    obtain ⟨before, hbefore⟩ := exists_getElem?_of_succ hitem
    have hplaced := ih hm hbefore fun j k hj => hfree j k (Nat.lt_succ_of_lt hj)
    exact h.anchor_succ hpre hs hm hn hbefore hitem
      (hkeys before (List.mem_of_getElem? hbefore)) hplaced
      (hfree i before (Nat.lt_succ_self i) hbefore)

end step

end ItemsAt

/-- The place of the dash of an item: behind the items before it and its own margin. -/
def dashPlace (past : Text) (items : List BlockItem) (i : Nat) (item : BlockItem) : Nat :=
  Text.byteSize (Text.pastOf BlockItem.text past items i ++ item.margin)

/-- No item but the last one holds a marker on its last line. -/
def KeepMarkers (items : List BlockItem) : Prop :=
  ∀ i item, items[i]? = some item → i + 1 < items.length → ¬ item.HoldsMarker

namespace ItemsAt

variable (h : ItemsAt t text s past items after) (hlocated : t.IsLocated text) (hs : s < t.size)
  (hkeys : ∀ item ∈ items, Line.KeepKeys item.lines)
include h hlocated hs hkeys

theorem start_span_eq_iff :
    (∀ i n item, (t.children s)[i]? = some n → items[i]? = some item →
        (t.span n).start = dashPlace past items i item) ↔ KeepMarkers items := by
  have hpre := hlocated.isPreorder
  have hlength := h.items_eq.length_eq
  constructor
  · intro hplaces i
    -- up to the first item that holds a marker everything is found where it stands
    induction i using Nat.strongRecOn with
    | ind i ih =>
      intro item hitem hlt hholds
      obtain ⟨n, hn⟩ : ∃ n, (t.children s)[i]? = some n :=
        ⟨_, List.getElem?_eq_getElem (by omega)⟩
      obtain ⟨m, hm⟩ : ∃ m, (t.children s)[i + 1]? = some m :=
        ⟨_, List.getElem?_eq_getElem (by omega)⟩
      have hnext := List.getElem?_eq_getElem hlt
      have hplaced := h.anchor_search hpre hs hkeys hn hitem fun j before hj hbefore =>
        ih j hj before hbefore (by omega)
      have hstart := h.start_search_lt hpre hs hn hm hitem hnext
        (hkeys item (List.mem_of_getElem? hitem)) hplaced hholds
      rw [← hlocated.start_span (lt_size hpre hs hm), hplaces (i + 1) m _ hm hnext] at hstart
      exact Nat.lt_irrefl _ hstart
  · intro hfree i n item hn hitem
    have hi := (List.getElem?_eq_some_iff.mp hitem).1
    rw [hlocated.start_span (lt_size hpre hs hn), h.anchor_search hpre hs hkeys hn hitem
      fun j before hj hbefore => hfree j before hbefore (by omega)]
    rfl

/-- Nodes behind an item that is found at its dash do not start before the dash. -/
theorem dashPlace_le_start_span (hfree : KeepMarkers items) {i n m : Nat} {item : BlockItem}
    (hn : (t.children s)[i]? = some n) (hitem : items[i]? = some item) (hnm : n ≤ m)
    (hm : m < t.size) : dashPlace past items i item ≤ (t.span m).start := by
  have hpre := hlocated.isPreorder
  have hi := (List.getElem?_eq_some_iff.mp hitem).1
  have hplaced := h.anchor_search hpre hs hkeys hn hitem fun j before hj hbefore =>
    hfree j before hbefore (by omega)
  rw [hlocated.start_span hm]
  rcases Nat.eq_or_lt_of_le hnm with rfl | hlt
  · rw [hplaced]
    exact Nat.le_refl _
  · -- a search goes back by one byte at most, and the dash is that byte
    have hcursor : (t.search text (n + 1)).cursor ≤ (t.search text m).cursor :=
      cursor_search_mono t text hlt
    have hback := cursor_le_start_search_add_one t text m
    rw [cursor_search_succ, hplaced, BlockItem.anchor] at hcursor
    simp only [Text.byteSize_append, Text.byteSize_cons, Text.byteSize_nil] at hcursor
    simp only [dashPlace, Text.byteSize_append] at hcursor ⊢
    have hpos := Char.utf8Size_pos '-'
    omega

/-- If no item but the last one holds a marker, the node at an offset behind the dash of an item and
before the next dash is the item or inside it. -/
theorem contains_nodeAt (hfree : KeepMarkers items) {i n offset : Nat} {item : BlockItem}
    (hn : (t.children s)[i]? = some n) (hitem : items[i]? = some item)
    (hdash : dashPlace past items i item ≤ offset)
    (hnext : ∀ next, items[i + 1]? = some next → offset < dashPlace past items (i + 1) next)
    (hlast : i + 1 = items.length → t.stop s = t.size) :
    t.contains n (t.nodeAt offset) = true := by
  have hpre := hlocated.isPreorder
  have hlength := h.items_eq.length_eq
  have hroots := (hpre.forest_children hs).getElem?_roots
  obtain ⟨hat, hstart, hafter⟩ := hlocated.nodeAt_spec offset
  rw [contains, Bool.and_eq_true, decide_eq_true_eq, decide_eq_true_eq]
  constructor
  · by_contra hlt
    have hlater := hafter n (Nat.lt_of_not_le hlt) (lt_size hpre hs hn)
    rw [(h.start_span_eq_iff hlocated hs hkeys).mpr hfree i n item hn hitem] at hlater
    omega
  · rcases Nat.lt_or_ge (i + 1) items.length with hlt | hge
    · have hm := List.getElem?_eq_getElem (l := t.children s) (i := i + 1) (by omega)
      have hbehind := hnext _ (List.getElem?_eq_getElem hlt)
      rw [← hroots.2.1 i n _ hn hm]
      by_contra hge
      have hle := h.dashPlace_le_start_span hlocated hs hkeys hfree hm
        (List.getElem?_eq_getElem hlt) (Nat.le_of_not_lt hge) hat
      omega
    · have hi := (List.getElem?_eq_some_iff.mp hitem).1
      have hend : i + 1 = items.length := by omega
      rw [hroots.2.2 i n hn (by omega), hlast hend]
      exact hat

end ItemsAt

/-- **The items of a block sequence all start at their dashes exactly if no item but the last one
holds a marker in the value of its last line.  Then the node at an offset from a dash up to the next
one is the item of that dash or inside it.** -/
theorem start_span_eq_dash_iff (h : t.IsLocated text) (hs : s < t.size)
    (hitems : ItemsAt t text s past items after)
    (hkeys : ∀ item ∈ items, Line.KeepKeys item.lines) :
    ((∀ i n item, (t.children s)[i]? = some n → items[i]? = some item →
        (t.span n).start = dashPlace past items i item) ↔ KeepMarkers items) ∧
      (KeepMarkers items → ∀ i n item offset, (t.children s)[i]? = some n →
        items[i]? = some item → dashPlace past items i item ≤ offset →
        (∀ next, items[i + 1]? = some next → offset < dashPlace past items (i + 1) next) →
        (i + 1 = items.length → t.stop s = t.size) →
        t.contains n (t.nodeAt offset) = true) :=
  ⟨hitems.start_span_eq_iff h hs hkeys, fun hfree _ _ _ _ hn hitem hdash hnext hlast =>
    hitems.contains_nodeAt h hs hkeys hfree hn hitem hdash hnext hlast⟩

/-! ### Steps with dashes in their values

The value of the first line of an item and that of the last line of all hold a dash between blanks.
-/

/-- An item with two lines. -/
def runItem : BlockItem where
  margin := "\n  ".toList
  entries :=
    [.entry { indent := [' '], key := "run".toList, space := [], rest := " b - c".toList } [],
      .entry { indent := "    ".toList, key := "name".toList, space := [],
               rest := " d".toList } []]

/-- An item with one line. -/
def usesItem : BlockItem where
  margin := "  ".toList
  entries :=
    [.entry { indent := [' '], key := "uses".toList, space := [], rest := " e - f".toList } []]

/-- The text with these two items. -/
def stepsText : Text :=
  "steps:\n  - run: b - c\n    name: d\n  - uses: e - f\n".toList

/-- The tree of this text. -/
def stepsTree : Tree :=
  ⟨#[⟨none, none, .mapping, none, [1], 0, 7, Span.upTo 0 50⟩,
    ⟨some "steps", none, .sequence, some 0, [2, 5], 0, 7, Span.upTo 0 50⟩,
    ⟨none, none, .mapping, some 1, [3, 4], 0, 5, Span.upTo 9 36⟩,
    ⟨some "run", some "b - c", .scalar, some 2, [], 0, 4, Span.upTo 11 26⟩,
    ⟨some "name", some "d", .scalar, some 2, [], 1, 5, Span.upTo 26 36⟩,
    ⟨none, none, .mapping, some 1, [6], 1, 7, Span.upTo 36 50⟩,
    ⟨some "uses", some "e - f", .scalar, some 5, [], 0, 7, Span.upTo 38 50⟩]⟩

theorem decode_stepsText : decode stepsText = .ok stepsTree := by
  decide +kernel

theorem itemsAt_stepsTree :
    ItemsAt stepsTree stepsText 1 "steps:".toList [runItem, usesItem] ['\n'] where
  text_eq := by decide +kernel
  items_eq := .cons ⟨rfl, rfl, ⟨rfl, trivial⟩, ⟨rfl, trivial⟩, trivial⟩
    (.cons ⟨rfl, rfl, ⟨rfl, trivial⟩, trivial⟩ .nil)
  cursor_eq := by decide +kernel
  follows := by
    rintro item ⟨rfl⟩
    exact ⟨Text.isMargin_append_newline "steps:".toList usesItem.margin_blank, rfl⟩

theorem keepKeys_stepsTree : ∀ item ∈ [runItem, usesItem], Line.KeepKeys item.lines := by
  intro item hitem i l m hl hm
  have hi := (List.getElem?_eq_some_iff.mp hm).1
  rcases List.mem_pair.mp hitem with rfl | rfl
  · match i, hl, hm with
    | 0, hl, hm =>
      cases hl
      cases hm
      exact Line.not_holdsKey_of_occurrencesFrom (by decide +kernel)
    | i + 1, _, _ =>
      exact absurd hi (by simp [runItem, BlockItem.lines, Block.linesOf, Block.lines])
  · exact absurd hi (by simp [usesItem, BlockItem.lines, Block.linesOf, Block.lines])

/-- The items of this text start at their dashes, and the first one reaches up to the second
dash. -/
theorem contains_nodeAt_stepsTree : decode stepsText = .ok stepsTree ∧
    ItemsAt stepsTree stepsText 1 "steps:".toList [runItem, usesItem] ['\n'] ∧
    (∀ item ∈ [runItem, usesItem], Line.KeepKeys item.lines) ∧ KeepMarkers [runItem, usesItem] ∧
    ∀ offset, 9 ≤ offset → offset < 36 → stepsTree.contains 2 (stepsTree.nodeAt offset) = true := by
  obtain ⟨hplaces, hinside⟩ := start_span_eq_dash_iff (isLocated_of_decode decode_stepsText)
    (by decide) itemsAt_stepsTree keepKeys_stepsTree
  have hfree : KeepMarkers [runItem, usesItem] := by
    refine hplaces.mp fun i n item hn hitem => ?_
    match i, hn, hitem with
    | 0, hn, hitem =>
      cases hn
      cases hitem
      decide +kernel
    | 1, hn, hitem =>
      cases hn
      cases hitem
      decide +kernel
  refine ⟨decode_stepsText, itemsAt_stepsTree, keepKeys_stepsTree, hfree,
    fun offset hdash hlt => hinside hfree 0 2 runItem offset rfl rfl hdash ?_ (by decide)⟩
  rintro next ⟨rfl⟩
  exact hlt

/-! ### A dash in the value of the last line -/

/-- The text of two items, the first of which has a dash between blanks in its only value. -/
def stolenText : Text := "- run: echo a - b\n- name: c\n".toList

/-- The two items as they are written. -/
def stolenItems : List BlockItem :=
  [{ margin := []
     entries := [.entry { indent := [' '], key := "run".toList, space := [],
                          rest := " echo a - b".toList } []] },
    { margin := []
      entries := [.entry { indent := [' '], key := "name".toList, space := [],
                           rest := " c".toList } []] }]

/-- The tree of this text: the second item is found at offset 14, in the value of the first one. -/
def stolenTree : Tree :=
  ⟨#[⟨none, none, .sequence, none, [1, 3], 0, 5, Span.upTo 0 28⟩,
    ⟨none, none, .mapping, some 0, [2], 0, 3, Span.upTo 0 14⟩,
    ⟨some "run", some "echo a - b", .scalar, some 1, [], 0, 3, Span.upTo 2 14⟩,
    ⟨none, none, .mapping, some 0, [4], 1, 5, Span.upTo 14 28⟩,
    ⟨some "name", some "c", .scalar, some 3, [], 0, 5, Span.upTo 20 28⟩]⟩

/-- **An item starts in the value of the item before, and what stands there is taken for a part of
the wrong item.** -/
theorem decode_stolenText : decode stolenText = .ok stolenTree ∧
    ItemsAt stolenTree stolenText root [] stolenItems ['\n'] ∧
    (∀ item, stolenItems[1]? = some item →
      (stolenTree.span 3).start ≠ dashPlace [] stolenItems 1 item) ∧
    stolenTree.contains 1 (stolenTree.nodeAt 14) = false := by
  refine ⟨by decide +kernel, ⟨by decide +kernel, ?_, rfl, ?_⟩, ?_, by decide +kernel⟩
  · exact .cons ⟨rfl, rfl, ⟨rfl, trivial⟩, trivial⟩ (.cons ⟨rfl, rfl, ⟨rfl, trivial⟩, trivial⟩ .nil)
  · rintro item ⟨rfl⟩
    exact ⟨Text.isMargin_of_forall (by simp), rfl⟩
  · rintro item ⟨rfl⟩
    decide +kernel

end Tree

end WorkflowLens
