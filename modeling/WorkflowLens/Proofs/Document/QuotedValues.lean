import WorkflowLens.Proofs.Document.Nesting
import WorkflowLens.Proofs.Text.Places
import WorkflowLens.Proofs.Text.Positions
import WorkflowLens.Proofs.Yaml.QuotedContent

/-!
# Quoted values that are still being typed

The last line of a document is a key and the beginning of a value in double quotes.  With one more
double quote the value is closed, whatever has been typed of it, and so this is the completed line
to try.

The scan of the line takes every double quote for the beginning or the end of a quoted part.  In
YAML a double quote behind a backslash is neither.  So behind an escaped quote the scan is outside
of the value, where it counts apostrophes and brackets, and behind the next one it is inside again.
It is also not told that the key is plain, and counts the quotes and brackets of the key.  Where it
ends inside double quotes with nothing else open, the double quote is put behind the line, and
nowhere else.

* `append_quote_mem_repairs_iff`: the double quote is put behind a line exactly if what stands in
  front of the last one leaves nothing open.
* `decodePartial?_of_append_quote`: then the document is read with it.
* `closes_quotedLine_spec`: what this means for a key and a value.
* `not_closes_quotedLine`: a value that is not closed.
-/

namespace WorkflowLens.Nesting

open WorkflowLens.Tree (isQuote)
open Yaml (IsReadAsContent)

variable {line : Text}

/-! ## Lines that end in double quotes -/

theorem leavesOpen_quote_iff : LeavesOpen line ['\x22'] ↔
    ∃ front back, line = front ++ '\x22' :: back ∧ '\x22' ∉ back ∧ IsClosed front := by
  constructor
  · intro h
    cases h with
    | @behind front _ back _ hfront _ hstays =>
      cases hstays with
      | quote _ hnot => exact ⟨front, back, rfl, hnot, leavesOpen_nil_iff.mp hfront⟩
      | bracket hopening => exact absurd hopening (by decide)
  · rintro ⟨front, back, rfl, hnot, hfront⟩
    exact .behind (.closed hfront) (by simp) (.quote rfl hnot)

/-- The double quote is put behind a line exactly if a double quote and nothing else is open. -/
theorem append_quote_mem_repairs_iff_leavesOpen :
    line ++ ['\x22'] ∈ repairs line ↔ LeavesOpen line ['\x22'] := by
  obtain ⟨opened, h⟩ := exists_leavesOpen line
  rw [repairs, List.mem_append, Option.mem_toList, Option.mem_toList, h.closeLine?_eq]
  constructor
  · rintro (hclose | hkey)
    · split at hclose
      · cases hclose
      · have hclosers := List.append_cancel_left (Option.some.inj hclose)
        rw [← h.closing_eq] at hclosers
        have hopened := h.opened_eq
        rw [hclosers] at hopened
        rwa [hopened] at h
    · have hlast := getLast?_of_keyLine? hkey
      rw [List.getLast?_concat] at hlast
      exact absurd hlast (by decide)
  · intro hquote
    rw [h.opened_eq.trans hquote.opened_eq.symm]
    exact .inl rfl

theorem append_quote_mem_repairs_iff : line ++ ['\x22'] ∈ repairs line ↔
    ∃ front back, line = front ++ '\x22' :: back ∧ '\x22' ∉ back ∧ IsClosed front :=
  append_quote_mem_repairs_iff_leavesOpen.trans leavesOpen_quote_iff

/-- Where the double quote is put behind a line, that line is the first one to be tried. -/
theorem exists_repairs_eq (h : line ++ ['\x22'] ∈ repairs line) :
    ∃ others, repairs line = (line ++ ['\x22']) :: others := by
  have hopened := append_quote_mem_repairs_iff_leavesOpen.mp h
  rw [repairs, hopened.closeLine?_eq]
  exact ⟨_, rfl⟩

/-- The document is read with the double quote that is put behind its last line. -/
theorem decodePartial?_of_append_quote {before : Text} {t : Tree} (hbefore : before.OpensLine)
    (hline : '\n' ∉ line) (h : line ++ ['\x22'] ∈ repairs line)
    (hnone : Tree.decode? (before ++ line) = .ok none)
    (hsome : Tree.decode? (before ++ line ++ ['\x22']) = .ok (some t)) :
    Tree.decodePartial? (before ++ line) = .ok (some t) := by
  have hrun : ∀ c ∈ line, (c != '\n') = true := by
    intro c hc
    rw [bne_iff_ne]
    rintro rfl
    exact hline hc
  have hbefore' : before.dropEndWhile (fun c => c != '\n') = before := by
    rw [Text.dropEndWhile_eq_self_iff]
    intro c hc
    rcases hbefore with rfl | hlast
    · cases hc
    · rw [Option.mem_unique hc hlast]
      rfl
  have hdrop : (before ++ line).dropEndWhile (fun c => c != '\n') = before := by
    rw [Text.dropEndWhile_append_of_forall hrun, hbefore']
  have htake : (before ++ line).takeEndWhile (fun c => c != '\n') = line := by
    have hsplit := Text.dropEndWhile_append_takeEndWhile (fun c => c != '\n') (before ++ line)
    rw [hdrop] at hsplit
    exact List.append_cancel_left hsplit
  obtain ⟨others, hrepairs⟩ := exists_repairs_eq h
  rw [Tree.decodePartial?, hdrop, htake, hrepairs, Tree.decodeFirst?, hnone, List.map_cons]
  simp only [bind, Except.bind]
  rw [Tree.decodeFirst?, ← List.append_assoc, hsome]
  rfl

/-! ## A key and a value -/

/-- A key and the beginning of a value in double quotes. -/
def quotedLine (key content : Text) : Text := key ++ [':', ' '] ++ '\x22' :: content

/-- A text has only one split at its last double quote. -/
theorem eq_of_append_quote_eq {s t u v : Text} (hu : '\x22' ∉ u) (hv : '\x22' ∉ v)
    (h : s ++ '\x22' :: u = t ++ '\x22' :: v) : s = t := by
  have hreverse : u.reverse ++ '\x22' :: s.reverse = v.reverse ++ '\x22' :: t.reverse := by
    simpa using congrArg List.reverse h
  have hends := Text.eq_of_append_cons_eq (fun hmem => hu (List.mem_reverse.mp hmem))
    (fun hmem => hv (List.mem_reverse.mp hmem)) hreverse
  rw [List.reverse_inj.mp hends] at h
  exact List.append_cancel_right h

/-- Without double quotes in the value the last one of the line is that in front of the value. -/
theorem append_quote_mem_repairs_quotedLine_iff {key content : Text} (h : '\x22' ∉ content) :
    quotedLine key content ++ ['\x22'] ∈ repairs (quotedLine key content) ↔ IsClosed key := by
  have hkey : IsClosed (key ++ [':', ' ']) ↔ IsClosed key := by
    rw [show key ++ [':', ' '] = key ++ [':'] ++ [' '] by simp,
      isClosed_concat_iff rfl rfl rfl, isClosed_concat_iff rfl rfl rfl]
  rw [append_quote_mem_repairs_iff, ← hkey]
  constructor
  · rintro ⟨front, back, hline, hback, hfront⟩
    rw [quotedLine] at hline
    rwa [eq_of_append_quote_eq h hback hline]
  · exact fun hclosed => ⟨_, content, rfl, h, hclosed⟩

/-- **A value in double quotes that is still being typed is closed exactly if what stands in front
of the last double quote of its line leaves nothing open, escaped quotes taken for quotes.**  For a
value that the reader reads this is the double quote in front of the value unless one is escaped in
it, and then it comes to the key alone.  Where the line is closed and the document has a tree with
it but not without it, the document is read with it. -/
theorem closes_quotedLine_spec (key content : Text) :
    (quotedLine key content ++ ['\x22'] ∈ repairs (quotedLine key content) ↔
      ∃ front back, quotedLine key content = front ++ '\x22' :: back ∧ '\x22' ∉ back ∧
        IsClosed front) ∧
    (IsReadAsContent content → ¬ ['\\', '\x22'] <:+: content →
      (quotedLine key content ++ ['\x22'] ∈ repairs (quotedLine key content) ↔ IsClosed key)) ∧
    (∀ before t, before.OpensLine → '\n' ∉ quotedLine key content →
      quotedLine key content ++ ['\x22'] ∈ repairs (quotedLine key content) →
      Tree.decode? (before ++ quotedLine key content) = .ok none →
      Tree.decode? (before ++ quotedLine key content ++ ['\x22']) = .ok (some t) →
      Tree.decodePartial? (before ++ quotedLine key content) = .ok (some t)) := by
  refine ⟨append_quote_mem_repairs_iff, fun hcontent hescape => ?_, fun before t => ?_⟩
  · exact append_quote_mem_repairs_quotedLine_iff
      fun hquote => hescape (hcontent.isContent.escape_infix_of_mem hquote)
  · exact decodePartial?_of_append_quote

/-- The tree of a document with a variable whose value is being typed. -/
def variableTree : Tree :=
  ⟨#[⟨none, none, .mapping, none, [1], 0, 3, Span.upTo 0 30⟩,
    ⟨some "env", none, .mapping, some 0, [2], 0, 3, Span.upTo 0 30⟩,
    ⟨some "NAME", some "$\x7b\x7b steps['x'].", .scalar, some 1, [], 0, 3, Span.upTo 7 30⟩]⟩

/-- Brackets and apostrophes in the value do not matter. -/
theorem closes_quotedLine_variable :
    IsReadAsContent "$\x7b\x7b steps['x'].".toList ∧
      ¬ ['\\', '\x22'] <:+: "$\x7b\x7b steps['x'].".toList ∧
      Tree.decodePartial? "env:\n  NAME: \"$\x7b\x7b steps['x'].".toList
        = .ok (some variableTree) := by
  have hcontent : IsReadAsContent "$\x7b\x7b steps['x'].".toList :=
    ⟨"$\x7b\x7b steps['x'].".toList, ⟨[], 17, 0, 17⟩, by decide +kernel, rfl⟩
  have hescape : ¬ ['\\', '\x22'] <:+: "$\x7b\x7b steps['x'].".toList :=
    fun h => absurd (h.subset List.mem_cons_self) (by decide)
  obtain ⟨-, hplain, hread⟩ :=
    closes_quotedLine_spec "  NAME".toList "$\x7b\x7b steps['x'].".toList
  have hclosed : IsClosed "  NAME".toList := by decide
  exact ⟨hcontent, hescape, hread "env:\n".toList variableTree (.inr rfl) (by decide)
    ((hplain hcontent hescape).mpr hclosed) (by decide +kernel) (by decide +kernel)⟩

/-- The tree of a document whose value holds a double quote. -/
def escapedTree : Tree :=
  ⟨#[⟨none, none, .mapping, none, [1], 0, 2, Span.upTo 0 9⟩,
    ⟨some "k", some "a\"b", .scalar, some 0, [], 0, 2, Span.upTo 0 9⟩]⟩

/-- **Behind an escaped double quote the value is not closed**, although the document has a tree
with the double quote behind it, and no tree is found.  Neither is a value behind a key with an
apostrophe. -/
theorem not_closes_quotedLine :
    IsReadAsContent "a\\\"b".toList ∧
      quotedLine "k".toList "a\\\"b".toList ++ ['\x22']
        ∉ repairs (quotedLine "k".toList "a\\\"b".toList) ∧
      Tree.decode? "k: \"a\\\"b\"".toList = .ok (some escapedTree) ∧
      Tree.decodePartial? "k: \"a\\\"b".toList = .ok none ∧
      quotedLine "it's".toList "v".toList ++ ['\x22']
        ∉ repairs (quotedLine "it's".toList "v".toList) := by
  refine ⟨⟨"a\"b".toList, ⟨[], 6, 0, 6⟩, by decide +kernel, rfl⟩, by decide +kernel,
    by decide +kernel, by decide +kernel, by decide +kernel⟩

end WorkflowLens.Nesting
