import WorkflowLens.Completion.Link
import WorkflowLens.Proofs.Document.Partial
import WorkflowLens.Proofs.Index.Collect
import WorkflowLens.Proofs.Text.Lines
import WorkflowLens.Proofs.Tree.FirstPlaces
import WorkflowLens.Proofs.Tree.Keys

/-!
# What links cover

A link belongs to a node `uses`.  Its range is found by two searches in the text of the node, for
the first colon and then for the value, and that text is itself what a search has left: it goes
from where the node was found to where the next one was.  It may be empty, and it may stand
somewhere else than the node, so nothing is known about it but its ends.

Behind the first colon the value stands where it is found, so a link always covers the text of the
value.  If the key of the node was found, the text begins with the key, and the colon is the one
behind the key.

That links do not overlap cannot be seen from their nodes, for a node may start before the node in
front of it.  But it does so by one byte only, the quote of its key, and a link leaves out at least
the colon of its node.  So every link begins behind the node in front, and what has a value has
nothing below it and ends where the next node starts.

* `Link.IsValuePlace`, `Link.ofNode?_eq_some_iff`: the link of a node, without the searches.
* `Tree.IsLocated.exists_key_of_found`: a node that is found begins with its key.
* `Tree.IsLocated.stop_span_le_of_value?`, `Link.stop_le_start_of_lt`: one link behind the other.
* `Link.links_spec`: what the links of a document cover, and which nodes have one.
-/

namespace WorkflowLens

namespace Tree

variable {t : Tree} {text : Text} {n : Nat}

/-- A node has a text of one line that names a file of a repository. -/
structure NamesRemote (t : Tree) (n : Nat) (value : String) (file : RemoteFile) : Prop where
  value_eq : t.value? n = some value
  oneLine : '\n' ∉ value.toList
  ofUses_eq : Reference.ofUses value.toList = .remote file

/-! ## The key of a node -/

/-- A key as it is written: its name, in quotes or not, and blanks. -/
def IsWrittenKey (name key : Text) : Prop :=
  ∃ (quote : Option Char) (blanks : Text), (∀ q ∈ quote, isQuote q = true) ∧
    (∀ c ∈ blanks, c = ' ' ∨ c = '\t') ∧
    key = quote.toList ++ (name ++ (quote.toList ++ blanks))

theorem IsWrittenKey.colon_not_mem {name key : Text} (h : IsWrittenKey name key)
    (hname : ':' ∉ name) : ':' ∉ key := by
  obtain ⟨quote, blanks, hquote, hblanks, rfl⟩ := h
  have hmark : ':' ∉ quote.toList := fun hmem =>
    absurd (hquote ':' (Option.mem_toList.mp hmem)) (by decide)
  have hblank : ':' ∉ blanks := fun hmem => absurd (hblanks ':' hmem) (by decide)
  simp only [List.mem_append, not_or]
  exact ⟨hmark, hname, hmark, hblank⟩

/-- Where a key is found, the text goes on with the key and its colon. -/
theorem IsLocated.exists_key_of_found (h : t.IsLocated text) (hn : n < t.size) {name : String}
    (hname : t.name? n = some name) {a : Anchor} (ha : (t.search text n).found = some a) :
    ∃ front key rest, text = front ++ (key ++ ':' :: rest) ∧
      Text.byteSize front = (t.span n).start ∧ IsWrittenKey name.toList key := by
  have hstart := h.start_span hn
  rw [Search.anchor, ha, Option.getD_some] at hstart
  cases n with
  | zero => cases ha
  | succ n =>
    rw [found_search_succ, found?_eq_some_iff (isBoundary_search t text (n + 1)).1] at ha
    obtain ⟨p, hstands, -⟩ := ha
    have hnode : (t.node (n + 1)).name = some name := hname
    simp only [StandsAt, hnode] at hstands
    obtain ⟨-, -, before, after, quote, blanks, rest, rfl, -, hkey, rfl⟩ := hstands
    obtain ⟨front, hbefore, hfront⟩ := hkey.exists_append name.toList
    have hquote : ∀ q ∈ quote, isQuote q = true := fun q hq =>
      (Option.filter_eq_some_iff.mp (hkey.quote_eq.trans hq)).2
    refine ⟨front, quote.toList ++ (name.toList ++ (quote.toList ++ blanks)), rest, ?_,
      hfront.symm.trans hstart.symm, quote, blanks, hquote, hkey.blank, rfl⟩
    rw [hbefore, hkey.after_eq]
    simp only [List.append_assoc]

/-! ## The end of a node -/

/-- A node with a text has nothing below it, so it ends with the next start, which is at most one
byte behind the start of any node after it. -/
theorem IsLocated.stop_span_le_of_value? (h : t.IsLocated text) (hvalue : t.value? n ≠ none)
    {m : Nat} (hnm : n < m) (hm : m < t.size) :
    (t.span n).stop ≤ max ((t.span m).start + 1) (t.span n).start := by
  have hnext : n + 1 < t.size := Nat.lt_of_le_of_lt hnm hm
  have hback := start_search_le_add_one t text (n := n + 1) hnm
  rw [h.stop_span (Nat.lt_trans hnm hm), (h.isLeaf_of_value? hvalue).2.2, if_pos hnext,
    h.start_span hnext, h.start_span hm]
  omega

end Tree

namespace Link

open WorkflowLens.Tree (IsWrittenKey NamesRemote)

/-! ## The place of a value -/

/-- A value stands in the text of a node behind the first colon, and not sooner. -/
structure IsValuePlace (source value key between after : Text) : Prop where
  source_eq : source = key ++ ':' :: (between ++ (value ++ after))
  colon_not_mem : ':' ∉ key
  isFirst : ∀ before rest, between ++ (value ++ after) = before ++ (value ++ rest) →
    between.byteSize ≤ before.byteSize

theorem valueOffset?_eq_some_iff {source value : Text} {offset : Nat} :
    valueOffset? source value = some offset ↔ ∃ key between after,
      IsValuePlace source value key between after ∧
        Text.byteSize (key ++ ':' :: between) = offset := by
  have hone := Tree.utf8Size_colon
  simp only [valueOffset?, Option.bind_eq_bind, Option.bind_eq_some_iff, Option.pure_def,
    Option.some.injEq, Prod.exists, Text.splitAtFirst?_singleton_eq_some_iff]
  constructor
  · rintro ⟨key, rest, ⟨hsource, hcolon⟩, distance, hfind, rfl⟩
    obtain ⟨⟨between, after, rfl, rfl⟩, hfirst⟩ := Text.find?_eq_some_iff.mp hfind
    refine ⟨key, between, after, ⟨hsource, hcolon, hfirst⟩, ?_⟩
    rw [Text.byteSize_append, Text.byteSize_cons, hone, Nat.add_assoc]
  · rintro ⟨key, between, after, ⟨hsource, hcolon, hfirst⟩, rfl⟩
    refine ⟨key, _, ⟨hsource, hcolon⟩, between.byteSize,
      Text.find?_eq_some_iff.mpr ⟨⟨between, after, rfl, rfl⟩, hfirst⟩, ?_⟩
    rw [Text.byteSize_append, Text.byteSize_cons, hone, Nat.add_assoc]

/-- A value that stands anywhere behind the first colon has a place. -/
theorem exists_isValuePlace {value key rest : Text} (hkey : ':' ∉ key) (hvalue : value <:+: rest) :
    ∃ between after, IsValuePlace (key ++ ':' :: rest) value key between after := by
  obtain ⟨distance, hfind⟩ : ∃ distance, Text.find? value rest = some distance := by
    rw [← Option.isSome_iff_exists, Text.find?, Option.isSome_map]
    exact Text.contains_iff.mpr hvalue
  obtain ⟨⟨between, after, rfl, rfl⟩, hfirst⟩ := Text.find?_eq_some_iff.mp hfind
  exact ⟨between, after, rfl, hkey, hfirst⟩

/-! ## The link of a node -/

/-- What a link is made of: a text that names a file of a repository, and its place in the text of
the node. -/
structure IsMadeOf (l : Link) (text : Text) (t : Tree) (n : Nat) (value : String)
    (file : RemoteFile) (source key between after : Text) : Prop where
  namesRemote : t.NamesRemote n value file
  slice_eq : text.slice (t.span n).start (t.span n).stop = .ok source
  place : IsValuePlace source value.toList key between after
  eq_mk : l = ⟨Span.ofSize ((t.span n).start + Text.byteSize (key ++ ':' :: between))
    (Text.byteSize value.toList), file.webUrl⟩

theorem webUrl?_eq_some_iff {r : Reference} {target : Text} :
    r.webUrl? = some target ↔ ∃ file, r = .remote file ∧ file.webUrl = target := by
  cases r <;> simp [Reference.webUrl?]

/-- A node has the link that is made of its text. -/
theorem ofNode?_eq_some_iff {text : Text} {t : Tree} {n : Nat} {l : Link} :
    ofNode? text t n = some l ↔ ∃ value file source key between after,
      l.IsMadeOf text t n value file source key between after := by
  constructor
  · intro h
    rw [ofNode?] at h
    obtain ⟨value, hvalue, h⟩ := Option.bind_eq_some_iff.mp h
    dsimp only at h
    split at h
    · cases h
    · next hline =>
      obtain ⟨target, htarget, h⟩ := Option.bind_eq_some_iff.mp h
      obtain ⟨source, hsource, h⟩ := Option.bind_eq_some_iff.mp h
      obtain ⟨offset, hoffset, h⟩ := Option.bind_eq_some_iff.mp h
      obtain ⟨file, hfile, rfl⟩ := webUrl?_eq_some_iff.mp htarget
      obtain ⟨key, between, after, hplace, rfl⟩ := valueOffset?_eq_some_iff.mp hoffset
      refine ⟨value, file, source, key, between, after, ⟨hvalue, hline, hfile⟩, ?_, hplace,
        (Option.some.inj h).symm⟩
      cases hslice : text.slice (t.span n).start (t.span n).stop with
      | error fault =>
        rw [hslice] at hsource
        cases hsource
      | ok piece =>
        rw [hslice] at hsource
        rw [Option.some.inj hsource]
  · rintro ⟨value, file, source, key, between, after, h⟩
    have htarget := webUrl?_eq_some_iff.mpr ⟨file, h.namesRemote.ofUses_eq, rfl⟩
    have hoffset := valueOffset?_eq_some_iff.mpr ⟨key, between, after, h.place, rfl⟩
    rw [ofNode?, h.namesRemote.value_eq, h.eq_mk]
    simp only [Option.bind_eq_bind, Option.bind_some, if_neg h.namesRemote.oneLine, htarget,
      h.slice_eq, Except.toOption, hoffset]
    rfl

namespace IsMadeOf

variable {l : Link} {text : Text} {t : Tree} {n : Nat} {value : String} {file : RemoteFile}
  {source key between after : Text}
  (h : l.IsMadeOf text t n value file source key between after)
include h

/-- What a link covers is the value. -/
theorem slice_span : text.slice l.span.start l.span.stop = .ok value.toList := by
  obtain ⟨front, rest, htext, hfront, -⟩ := Text.slice_eq_ok_iff.mp h.slice_eq
  rw [Text.slice_eq_ok_iff, h.eq_mk]
  refine ⟨front ++ (key ++ ':' :: between), after ++ rest, ?_, ?_, ?_⟩
  · rw [htext, h.place.source_eq]
    simp only [List.append_assoc, List.cons_append]
  · rw [Text.byteSize_append, hfront]
    rfl
  · rw [Text.byteSize_append, Text.byteSize_append, hfront]
    rfl

/-- A link begins behind the first colon of its node. -/
theorem colon_le_start : (t.span n).start + Text.byteSize (key ++ [':']) ≤ l.span.start := by
  rw [h.eq_mk]
  simp only [Span.ofSize, Text.byteSize_append, Text.byteSize_cons, Text.byteSize_nil]
  omega

theorem start_lt_start : (t.span n).start < l.span.start := by
  have hcolon := h.colon_le_start
  rw [Text.byteSize_append, Text.byteSize_cons, Tree.utf8Size_colon] at hcolon
  omega

/-- A link ends where its node ends, or before. -/
theorem stop_le_stop : l.span.stop ≤ (t.span n).stop := by
  obtain ⟨front, rest, -, hfront, hstop⟩ := Text.slice_eq_ok_iff.mp h.slice_eq
  rw [h.eq_mk, ← hstop, h.place.source_eq, ← hfront]
  simp only [Span.ofSize, Text.byteSize_append, Text.byteSize_cons]
  omega

/-- If the key of the node was found, it is what stands in front of the colon. -/
theorem isWrittenKey (hlocated : t.IsLocated text) (hn : n < t.size)
    (hname : t.name? n = some "uses") (hfound : (t.search text n).found ≠ none) :
    IsWrittenKey "uses".toList key := by
  obtain ⟨a, ha⟩ := Option.ne_none_iff_exists'.mp hfound
  obtain ⟨front, written, rest, htext, hfront, hwritten⟩ :=
    hlocated.exists_key_of_found hn hname ha
  obtain ⟨front', rest', htext', hfront', -⟩ := Text.slice_eq_ok_iff.mp h.slice_eq
  rw [List.append_assoc] at htext'
  obtain ⟨-, hbehind⟩ := Text.append_inj_of_byteSize_eq (htext'.symm.trans htext)
    (hfront'.trans hfront.symm)
  rw [h.place.source_eq, List.append_assoc, List.cons_append] at hbehind
  rw [Text.eq_of_append_cons_eq h.place.colon_not_mem (hwritten.colon_not_mem (by decide)) hbehind]
  exact hwritten

end IsMadeOf

/-- **The range of a link is that of its value in the text.** -/
theorem isIn_of_ofNode? {text : Text} {t : Tree} {n : Nat} {l : Link}
    (h : ofNode? text t n = some l) : l.span.IsIn text := by
  obtain ⟨_, _, _, _, _, _, hmade⟩ := ofNode?_eq_some_iff.mp h
  obtain ⟨before, after, rfl, hstart, hstop⟩ := Text.slice_eq_ok_iff.mp hmade.slice_span
  refine ⟨?_, ?_⟩
  · rw [← hstart, List.append_assoc]
    exact Text.isBoundary_append _ _
  · rw [← hstop]
    exact Text.isBoundary_append _ _

/-! ## All links of a document -/

/-- What a link of a document covers: the text of a node `uses`, behind the first colon of what the
node covers.  If the key of the node was found, this is the colon of the key. -/
structure Covers (l : Link) (text : Text) (t : Tree) (n : Nat) : Prop where
  name_eq : t.name? n = some "uses"
  exists_value : ∃ value file, t.NamesRemote n value file ∧ l.target = file.webUrl ∧
    text.slice l.span.start l.span.stop = .ok value.toList
  exists_colon : ∃ key rest,
    text.slice (t.span n).start (t.span n).stop = .ok (key ++ ':' :: rest) ∧ ':' ∉ key ∧
      ((t.search text n).found ≠ none → IsWrittenKey "uses".toList key) ∧
      (t.span n).start + Text.byteSize (key ++ [':']) ≤ l.span.start
  stop_le_stop : l.span.stop ≤ (t.span n).stop

section located

variable {text : Text} {t : Tree} (h : t.IsLocated text)
include h

theorem covers_of_ofNode? {n : Nat} (hn : n < t.size) (hname : t.name? n = some "uses") {l : Link}
    (hl : ofNode? text t n = some l) : l.Covers text t n := by
  obtain ⟨value, file, source, key, between, after, hmade⟩ := ofNode?_eq_some_iff.mp hl
  refine ⟨hname, ⟨value, file, hmade.namesRemote, ?_, hmade.slice_span⟩,
    ⟨key, between ++ (value.toList ++ after), ?_, hmade.place.colon_not_mem,
      hmade.isWrittenKey h hn hname, hmade.colon_le_start⟩, hmade.stop_le_stop⟩
  · rw [hmade.eq_mk]
  · rw [hmade.slice_eq, hmade.place.source_eq]

/-- The link of a node ends before the link of any node after it begins. -/
theorem stop_le_start_of_lt {n m : Nat} (hnm : n < m) (hm : m < t.size) {a b : Link}
    (ha : ofNode? text t n = some a) (hb : ofNode? text t m = some b) :
    a.span.stop ≤ b.span.start := by
  obtain ⟨_, _, _, _, _, _, hmade⟩ := ofNode?_eq_some_iff.mp ha
  obtain ⟨_, _, _, _, _, _, hnext⟩ := ofNode?_eq_some_iff.mp hb
  have hvalue : t.value? n ≠ none := by
    rw [hmade.namesRemote.value_eq]
    exact Option.some_ne_none _
  have hstop := hmade.stop_le_stop.trans (h.stop_span_le_of_value? hvalue hnm hm)
  have hstart := hmade.start_lt_start
  have hstart' := hnext.start_lt_start
  have hle := a.span.start_le_stop
  -- a link that begins behind its node has room, so its node ends with the next start
  omega

variable {ix : Index} (htree : ix.tree = some t)
include htree

theorem mem_links_iff {l : Link} : l ∈ links text ix ↔
    ∃ n < t.size, t.name? n = some "uses" ∧ ofNode? text t n = some l := by
  rw [links, htree]
  simp only [List.mem_filterMap, h.isPreorder.mem_nodesWhere_root_iff, Tree.hasName_iff, and_assoc]

theorem pairwise_links : (links text ix).Pairwise fun a b => a.span.stop ≤ b.span.start := by
  have hsorted := t.pairwise_lt_nodesWhere Tree.root (t.hasName "uses")
  rw [links, htree]
  refine List.pairwise_filterMap.mpr (hsorted.imp_of_mem fun {n m} _ hm hnm => ?_)
  intro a ha b hb
  exact stop_le_start_of_lt h hnm (h.isPreorder.mem_nodesWhere_root_iff.mp hm).1 ha hb

end located

/-- **The links of a document cover the texts of nodes `uses` that name a file of a repository**,
each behind the first colon of its node, and each link ends before the next one begins.  A node has
a link if its text stands anywhere behind that colon. -/
theorem links_spec {text : Text} {t : Tree} (h : Tree.decode text = .ok t) (kind : DocumentKind)
    (caret : Nat) : ∃ ix, Index.ofText text kind caret = .ok ix ∧ ix.tree = some t ∧
      (∀ l ∈ links text ix, ∃ n < t.size, l.Covers text t n) ∧
      ((links text ix).Pairwise fun a b => a.span.stop ≤ b.span.start) ∧
      ∀ n < t.size, ∀ value file key rest, t.name? n = some "uses" →
        t.NamesRemote n value file →
        text.slice (t.span n).start (t.span n).stop = .ok (key ++ ':' :: rest) → ':' ∉ key →
        value.toList <:+: rest → ∃ l ∈ links text ix, l.Covers text t n := by
  have hlocated := Tree.isLocated_of_decode h
  have hdecode : Tree.decode? text = .ok (some t) := by rw [Tree.decode?, h]
  have hindex : Index.ofText text kind caret = .ok (Index.ofTree (some t) kind caret) := by
    rw [Index.ofText, hdecode]
    rfl
  have htree : (Index.ofTree (some t) kind caret).tree = some t := rfl
  refine ⟨_, hindex, htree, fun l hl => ?_, pairwise_links hlocated htree, ?_⟩
  · obtain ⟨n, hn, hname, hnode⟩ := (mem_links_iff hlocated htree).mp hl
    exact ⟨n, hn, covers_of_ofNode? hlocated hn hname hnode⟩
  · intro n hn value file key rest hname hremote hslice hkey hstands
    obtain ⟨between, after, hplace⟩ := exists_isValuePlace hkey hstands
    have hnode := ofNode?_eq_some_iff.mpr
      ⟨value, file, _, key, between, after, hremote, hslice, hplace, rfl⟩
    exact ⟨_, (mem_links_iff hlocated htree).mpr ⟨n, hn, hname, hnode⟩,
      covers_of_ofNode? hlocated hn hname hnode⟩

/-- A document with two nodes `uses`, one of them in quotes. -/
def twoUsesText : Text := "- \"uses\": a/b@v1\n- uses: c/d@v2".toList

/-- The tree of `twoUsesText`. -/
def twoUsesTree : Tree :=
  ⟨#[⟨none, none, .sequence, none, [1, 3], 0, 5, Span.upTo 0 31⟩,
    ⟨none, none, .mapping, some 0, [2], 0, 3, Span.upTo 0 17⟩,
    ⟨some "uses", some "a/b@v1", .scalar, some 1, [], 0, 3, Span.upTo 2 17⟩,
    ⟨none, none, .mapping, some 0, [4], 1, 5, Span.upTo 17 31⟩,
    ⟨some "uses", some "c/d@v2", .scalar, some 3, [], 0, 5, Span.upTo 19 31⟩]⟩

/-- Both nodes have links, the first of which ends before the second one begins. -/
theorem covers_twoUsesTree : Tree.decode twoUsesText = .ok twoUsesTree ∧
    ∃ ix, Index.ofText twoUsesText .workflow 0 = .ok ix ∧
      (∃ l ∈ links twoUsesText ix, l.Covers twoUsesText twoUsesTree 2) ∧
      (∃ l ∈ links twoUsesText ix, l.Covers twoUsesText twoUsesTree 4) ∧
      (links twoUsesText ix).Pairwise fun a b => a.span.stop ≤ b.span.start := by
  have hdecode : Tree.decode twoUsesText = .ok twoUsesTree := by decide +kernel
  obtain ⟨ix, hindex, -, -, hpairwise, hlink⟩ := links_spec hdecode .workflow 0
  refine ⟨hdecode, ix, hindex, ?_, ?_, hpairwise⟩
  · exact hlink 2 (by decide) "a/b@v1" ⟨"a".toList, "b".toList, "action.yml".toList, "v1".toList⟩
      "\"uses\"".toList " a/b@v1\n".toList rfl ⟨rfl, by decide, by decide +kernel⟩
      (by decide +kernel) (by decide) (by decide +kernel)
  · exact hlink 4 (by decide) "c/d@v2" ⟨"c".toList, "d".toList, "action.yml".toList, "v2".toList⟩
      "uses".toList " c/d@v2".toList rfl ⟨rfl, by decide, by decide +kernel⟩
      (by decide +kernel) (by decide) (by decide +kernel)

end Link

end WorkflowLens
