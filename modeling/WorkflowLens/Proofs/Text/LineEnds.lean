import WorkflowLens.Proofs.Text.Lines
import WorkflowLens.Proofs.Text.Positions
import WorkflowLens.Proofs.Text.Runs

/-!
# Two readings of the end of a line

A position counts lines by line feeds alone, and a carriage return in front of a line feed is for
it the last character of the line.  Around a caret a line ends at the carriage return already.  As
long as an offset lies in what the line contains, both readings mean the same line.  But a column
past the end stands for the end, and the end of a position's line lies behind the carriage return:
there, between the two characters of the line's own ending, the caret is on an empty line.

* `IsLineAt`: a line of a text, with what it contains and how it ends.
* `caretLine_append`: the caret's line is read off a split of the text.
* `exists_isLineAt`: every line has one of the three endings.
* `caretLine_offsetAt?_iff`: for which columns the caret's line is the line of the position.
* `caretLine_offsetAt?_returnText`: a column for which it is not.
-/

namespace WorkflowLens.Text

/-- Every carriage return stands in front of a line feed, so that it can only end a line. -/
def ReturnsBeforeFeeds (t : Text) : Prop :=
  ∀ before after, t = before ++ '\r' :: after → after.head? = some '\n'

/-- Carriage returns by the places at which they stand. -/
theorem returnsBeforeFeeds_iff {t : Text} :
    t.ReturnsBeforeFeeds ↔ ∀ i < t.length, t[i]? = some '\r' → t[i + 1]? = some '\n' := by
  constructor
  · intro h i hi hreturn
    have hsplit : t = t.take i ++ '\r' :: t.drop (i + 1) := by
      rw [List.getElem?_eq_getElem hi, Option.some.injEq] at hreturn
      rw [← hreturn, ← List.drop_eq_getElem_cons hi, List.take_append_drop]
    have hfeed := h _ _ hsplit
    rwa [List.head?_drop] at hfeed
  · rintro h before after rfl
    have hfeed := h before.length (by simp) (by simp)
    rwa [List.getElem?_append_right (Nat.le_add_right _ 1), Nat.add_sub_cancel_left,
      List.getElem?_cons_succ, ← List.head?_eq_getElem?] at hfeed

instance (t : Text) : Decidable t.ReturnsBeforeFeeds :=
  decidable_of_iff _ returnsBeforeFeeds_iff.symm

/-- Line `n` of a text stands between complete lines and the rest.  The last line has no ending,
the others end with a line feed, which may have a carriage return in front of it. -/
structure IsLineAt (t : Text) (n : Nat) (past content ending after : Text) : Prop where
  text_eq : t = past ++ (content ++ (ending ++ after))
  opensLine : OpensLine past
  count_eq : past.count '\n' = n
  not_isLineEnd : ∀ c ∈ content, isLineEnd c = false
  ending_cases : (ending = [] ∧ after = []) ∨ ending = ['\n'] ∨ ending = ['\r', '\n']

/-! ## The caret's line in a split -/

theorem isLineEnd_of_opensLine {past : Text} (h : OpensLine past) :
    ∀ c ∈ past.getLast?, isLineEnd c = true := by
  intro c hc
  rcases h with rfl | hfeed
  · cases hc
  · rw [hfeed, Option.mem_some_iff] at hc
    rw [← hc]
    rfl

/-- A caret between two parts of a line has the line that is made up of both. -/
theorem caretLine_append {past rest : Text} (left right : Text)
    (hpast : ∀ c ∈ past.getLast?, isLineEnd c = true) (hleft : ∀ c ∈ left, isLineEnd c = false)
    (hright : ∀ c ∈ right, isLineEnd c = false) (hrest : ∀ c ∈ rest.head?, isLineEnd c = true) :
    caretLineStart (past ++ left ++ (right ++ rest)) (byteSize (past ++ left)) = byteSize past ∧
      caretLineEnd (past ++ left ++ (right ++ rest)) (byteSize (past ++ left))
        = byteSize (past ++ left) + byteSize right := by
  have hnot : ∀ {s : Text}, (∀ c ∈ s, isLineEnd c = false) → ∀ c ∈ s, (!isLineEnd c) = true := by
    intro s hs c hc
    rw [hs c hc]
    rfl
  constructor
  · have hstay : dropEndWhile (fun c => !isLineEnd c) past = past :=
      dropEndWhile_eq_self_iff.mpr fun c hc => by rw [hpast c hc]; rfl
    rw [caretLineStart, splitAtFloor_byteSize, dropEndWhile_append_of_forall (hnot hleft), hstay]
  · rw [caretLineEnd, splitAtFloor_byteSize]
    dsimp only
    rw [takeWhile_append_of_head? (hnot hright) fun c hc => by rw [hrest c hc]; rfl]

/-! ## The lines of a text -/

/-- Every line of a text has one of the three endings. -/
theorem exists_isLineAt {t : Text} (ht : t.ReturnsBeforeFeeds) {n : Nat} (hn : n < t.lineCount) :
    ∃ past content ending after, t.IsLineAt n past content ending after := by
  obtain ⟨past, rest, rfl, hpast, hcount⟩ := exists_opensLine_append hn
  have hrest := List.takeWhile_append_dropWhile (p := fun c => !isLineEnd c) (l := rest)
  have hcontent : ∀ c ∈ rest.takeWhile (fun c => !isLineEnd c), isLineEnd c = false := by
    intro c hc
    simpa using List.mem_takeWhile_imp hc
  have hhead := List.head?_dropWhile_not (fun c => !isLineEnd c) rest
  cases hdrop : rest.dropWhile fun c => !isLineEnd c with
  | nil =>
    refine ⟨past, _, [], [], ?_, hpast, hcount, hcontent, .inl ⟨rfl, rfl⟩⟩
    rw [List.append_nil, ← hdrop, hrest]
  | cons c after =>
    rw [hdrop] at hhead hrest
    have hends : isLineEnd c = true := by simpa using hhead
    have hc : c = '\n' ∨ c = '\r' := by
      rwa [isLineEnd, Bool.or_eq_true, beq_iff_eq, beq_iff_eq] at hends
    rcases hc with rfl | rfl
    · exact ⟨past, _, ['\n'], after, by rw [List.singleton_append, hrest], hpast, hcount, hcontent,
        .inr (.inl rfl)⟩
    · -- a carriage return is followed by the line feed
      have hfeed := ht (past ++ rest.takeWhile fun c => !isLineEnd c) after
        (by rw [List.append_assoc, hrest])
      obtain ⟨after', rfl⟩ := List.head?_eq_some_iff.mp hfeed
      exact ⟨past, _, ['\r', '\n'], after', congrArg (past ++ ·) hrest.symm, hpast, hcount,
        hcontent, .inr (.inr rfl)⟩

namespace IsLineAt

variable {t past content ending after : Text} {n : Nat}
  (h : t.IsLineAt n past content ending after)
include h

theorem feed_not_mem : '\n' ∉ content := by
  intro hmem
  have hno := h.not_isLineEnd _ hmem
  exact absurd hno (by decide)

/-- The characters that count as columns: what the line contains, and its carriage return. -/
theorem offsetAt?_eq (column : Nat) :
    t.offsetAt? ⟨n, column⟩ = some (byteSize past + byteSize ((content
      ++ if ending = ['\r', '\n'] then ['\r'] else []).take column)) := by
  have hcontent : ∀ c ∈ content, (c != '\n') = true :=
    fun c hc => bne_iff_ne.mpr fun heq => h.feed_not_mem (heq ▸ hc)
  have hending : (ending ++ after).takeWhile (fun c => c != '\n')
      = if ending = ['\r', '\n'] then ['\r'] else [] := by
    rcases h.ending_cases with ⟨rfl, rfl⟩ | rfl | rfl <;> rfl
  rw [h.text_eq, ← h.count_eq, Text.offsetAt?_eq h.opensLine,
    List.takeWhile_append_of_pos hcontent, hending]

/-- Up to the end of what a line contains the caret is on the line. -/
theorem caretLine_take (column : Nat) :
    t.caretLineStart (byteSize past + byteSize (content.take column)) = byteSize past ∧
      t.caretLineEnd (byteSize past + byteSize (content.take column))
        = byteSize (past ++ content) := by
  have hrest : ∀ c ∈ (ending ++ after).head?, isLineEnd c = true := by
    intro c hc
    rcases h.ending_cases with ⟨rfl, rfl⟩ | rfl | rfl
    · cases hc
    · cases hc
      rfl
    · cases hc
      rfl
  have hline := caretLine_append (content.take column) (content.drop column)
    (isLineEnd_of_opensLine h.opensLine)
    (fun c hc => h.not_isLineEnd c (List.mem_of_mem_take hc))
    (fun c hc => h.not_isLineEnd c (List.mem_of_mem_drop hc)) hrest
  have htext : past ++ content.take column ++ (content.drop column ++ (ending ++ after)) = t := by
    rw [h.text_eq, List.append_assoc, ← List.append_assoc (content.take column),
      List.take_append_drop]
  have hsize : byteSize (content.take column) + byteSize (content.drop column)
      = byteSize content := by
    rw [← byteSize_append, List.take_append_drop]
  rwa [htext, byteSize_append, Nat.add_assoc, hsize, ← byteSize_append past content] at hline

/-- Between a carriage return and its line feed the caret is on an empty line. -/
theorem caretLine_return (hending : ending = ['\r', '\n']) :
    t.caretLineStart (byteSize (past ++ content) + 1) = byteSize (past ++ content) + 1 ∧
      t.caretLineEnd (byteSize (past ++ content) + 1) = byteSize (past ++ content) + 1 := by
  have hreturn : ∀ c ∈ (past ++ content ++ ['\r']).getLast?, isLineEnd c = true := by
    intro c hc
    rw [List.getLast?_concat, Option.mem_some_iff] at hc
    rw [← hc]
    rfl
  have hfeed : ∀ c ∈ ('\n' :: after).head?, isLineEnd c = true := by
    rintro c ⟨⟩
    rfl
  have hline := caretLine_append [] [] hreturn (by simp) (by simp) hfeed
  have htext : past ++ content ++ ['\r'] ++ [] ++ ([] ++ '\n' :: after) = t := by
    rw [h.text_eq, hending]
    simp
  rw [htext, List.append_nil, byteSize_append _ ['\r']] at hline
  exact hline

end IsLineAt

/-- **On which line a position's offset is.**  In a text whose lines end with a line feed or with
a carriage return and a line feed, every position on a line has an offset.  The caret's line there
begins where the line begins and ends where its content ends, for all columns, unless the line has
a carriage return and the column is past the content.  Then the offset lies between the two
characters of the ending, and the caret's line is empty. -/
theorem caretLine_offsetAt?_iff {t : Text} (ht : t.ReturnsBeforeFeeds) :
    (∀ n < t.lineCount, ∃ past content ending after, t.IsLineAt n past content ending after) ∧
    ∀ n past content ending after, t.IsLineAt n past content ending after → ∀ column,
      ∃ o, t.offsetAt? ⟨n, column⟩ = some o ∧
        ((t.caretLineStart o = byteSize past ∧ t.caretLineEnd o = byteSize (past ++ content)) ↔
          ¬ (ending = ['\r', '\n'] ∧ content.length < column)) ∧
        (ending = ['\r', '\n'] → content.length < column →
          o = byteSize (past ++ content) + 1 ∧ t.caretLineStart o = o ∧ t.caretLineEnd o = o) := by
  refine ⟨fun n hn => exists_isLineAt ht hn, ?_⟩
  intro n past content ending after h column
  refine ⟨_, h.offsetAt?_eq column, ?_⟩
  by_cases hpast : ending = ['\r', '\n'] ∧ content.length < column
  · obtain ⟨hending, hlt⟩ := hpast
    have htake : (content ++ ['\r']).take column = content ++ ['\r'] := by
      rw [List.take_of_length_le]
      rw [List.length_append]
      exact hlt
    have hoffset : byteSize past + byteSize (content ++ ['\r'])
        = byteSize (past ++ content) + 1 := by
      rw [byteSize_append, byteSize_append, Nat.add_assoc]
      rfl
    obtain ⟨hstart, hend⟩ := h.caretLine_return hending
    rw [if_pos hending, htake, hoffset]
    refine ⟨iff_of_false ?_ fun hno => hno ⟨hending, hlt⟩, fun _ _ => ⟨rfl, hstart, hend⟩⟩
    rintro ⟨-, hsame⟩
    rw [hend] at hsame
    omega
  · have htake : (content ++ if ending = ['\r', '\n'] then ['\r'] else []).take column
        = content.take column := by
      split
      · next hending =>
        exact List.take_append_of_le_length (Nat.le_of_not_lt fun hlt => hpast ⟨hending, hlt⟩)
      · rw [List.append_nil]
    rw [htake]
    exact ⟨iff_of_true (h.caretLine_take column) hpast,
      fun hending hlt => absurd ⟨hending, hlt⟩ hpast⟩

/-- The beginning of a workflow whose lines end with carriage returns and line feeds. -/
def returnText : Text := "on:\r\n  push:\r\n".toList

/-- On the second line of `returnText` all columns up to its end are on the line. -/
theorem caretLine_returnText :
    returnText.ReturnsBeforeFeeds ∧
      returnText.IsLineAt 1 "on:\r\n".toList "  push:".toList ['\r', '\n'] [] ∧
      ∀ column ≤ 7, ∃ o, returnText.offsetAt? ⟨1, column⟩ = some o ∧
        returnText.caretLineStart o = 5 ∧ returnText.caretLineEnd o = 12 := by
  have hreturns : returnText.ReturnsBeforeFeeds := by decide
  have hline : returnText.IsLineAt 1 "on:\r\n".toList "  push:".toList ['\r', '\n'] [] :=
    ⟨by decide, .inr (by decide), by decide, by simp [isLineEnd], .inr (.inr rfl)⟩
  refine ⟨hreturns, hline, fun column hcolumn => ?_⟩
  obtain ⟨o, ho, hiff, -⟩ := (caretLine_offsetAt?_iff hreturns).2 _ _ _ _ _ hline column
  exact ⟨o, ho, hiff.mpr fun hlt => Nat.not_lt_of_le hcolumn hlt.2⟩

/-- **A column past the end of a line is on an empty line.**  The first line goes from 0 to 3. -/
theorem caretLine_offsetAt?_returnText :
    returnText.ReturnsBeforeFeeds ∧
      returnText.IsLineAt 0 [] "on:".toList ['\r', '\n'] "  push:\r\n".toList ∧
      returnText.offsetAt? ⟨0, 99⟩ = some 4 ∧ returnText.caretLineStart 4 = 4 ∧
      returnText.caretLineEnd 4 = 4 ∧
      ¬ (returnText.caretLineStart 4 = byteSize [] ∧
        returnText.caretLineEnd 4 = byteSize ([] ++ "on:".toList)) :=
  ⟨by decide, ⟨by decide, .inl rfl, by decide, by simp [isLineEnd], .inr (.inr rfl)⟩, by decide,
    by decide,
    by decide, by decide⟩

end WorkflowLens.Text
