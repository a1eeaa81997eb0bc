import WorkflowLens.Proofs.Yaml.Comments

/-!
# The content of double-quoted scalars

A double-quoted scalar ends at the first double quote that no backslash takes with it.  A backslash
takes the character behind it, whichever it is: for the end of the scalar it does not matter what an
escape stands for, since the digits of a code are neither quotes nor backslashes, and neither are
the blanks and line ends that the reader joins.

* `IsContent`: a text in which double quotes stand behind backslashes only.
* `PassesContent`: a cursor has passed over such a text on the way to another one.
* `exists_of_readQuoted`: the reader finds such a text between two double quotes.
* `IsReadAsContent`: the texts that it reads, escapes and all.
-/

namespace WorkflowLens.Yaml

/-! ## Content -/

/-- A text in which no double quote stands by itself and that does not end inside an escape. -/
inductive IsContent : Text → Prop
  | nil : IsContent []
  | char {c : Char} {t : Text} : c ≠ '\x22' → c ≠ '\\' → IsContent t → IsContent (c :: t)
  | escape {c : Char} {t : Text} : IsContent t → IsContent ('\\' :: c :: t)

namespace IsContent

variable {s t : Text}

theorem append (hs : IsContent s) (ht : IsContent t) : IsContent (s ++ t) := by
  induction hs with
  | nil => exact ht
  | char hquote hescape _ ih => exact .char hquote hescape ih
  | escape _ ih => exact .escape ih

theorem of_forall (h : ∀ c ∈ t, c ≠ '\x22' ∧ c ≠ '\\') : IsContent t := by
  induction t with
  | nil => exact .nil
  | cons c t ih =>
    obtain ⟨⟨hquote, hescape⟩, hrest⟩ := List.forall_mem_cons.mp h
    exact .char hquote hescape (ih hrest)

/-- Every double quote stands behind a backslash. -/
theorem escape_infix_of_mem (h : IsContent t) (hquote : '\x22' ∈ t) : ['\\', '\x22'] <:+: t := by
  induction h with
  | nil => cases hquote
  | char hne _ _ ih => exact List.infix_cons (ih (List.mem_of_ne_of_mem (Ne.symm hne) hquote))
  | @escape c t _ ih =>
    rcases List.mem_cons.mp hquote with heq | hquote
    · exact absurd heq (by decide)
    rcases List.mem_cons.mp hquote with rfl | hquote
    · exact ⟨[], t, rfl⟩
    · exact List.infix_cons (List.infix_cons (ih hquote))

end IsContent

/-! ## Content that is passed over -/

/-- Between two cursors of a text stands content. -/
def PassesContent (c c' : Cursor) : Prop := ∃ s, c.rest = s ++ c'.rest ∧ IsContent s

theorem PassesContent.refl (c : Cursor) : PassesContent c c := ⟨[], rfl, .nil⟩

theorem PassesContent.trans {c c' c'' : Cursor} (h : PassesContent c c')
    (h' : PassesContent c' c'') : PassesContent c c'' := by
  obtain ⟨s, hs, hcontent⟩ := h
  obtain ⟨t, ht, hcontent'⟩ := h'
  exact ⟨s ++ t, by rw [hs, ht, List.append_assoc], hcontent.append hcontent'⟩

theorem ne_of_isSpace {c : Char} (h : isSpace c = true) : c ≠ '\x22' ∧ c ≠ '\\' := by
  constructor <;> rintro rfl <;> exact absurd h (by decide)

theorem ne_of_isBreak {c : Char} (h : isBreak c = true) : c ≠ '\x22' ∧ c ≠ '\\' := by
  constructor <;> rintro rfl <;> exact absurd h (by decide)

theorem ne_of_hexDigit? {c : Char} (h : (hexDigit? c).isSome) : c ≠ '\x22' ∧ c ≠ '\\' := by
  constructor <;> rintro rfl <;> exact absurd h (by decide)

/-- A line end is at least one character, and none of them is a quote or a backslash. -/
theorem exists_of_atBreak {c : Cursor} (h : c.atBreak = true) :
    ∃ x s, c.rest = x :: (s ++ c.takeBreak.2.rest) ∧ (∀ d ∈ x :: s, isBreak d = true) := by
  obtain ⟨rest, index, line, column⟩ := c
  cases rest with
  | nil => cases h
  | cons x rest =>
    have hx : isBreak x = true := h
    unfold Cursor.takeBreak
    split
    · next hrest =>
      obtain ⟨rfl, rfl⟩ := List.cons.inj hrest
      exact ⟨'\r', ['\n'], rfl, List.all_eq_true.mp rfl⟩
    · next hrest =>
      obtain ⟨rfl, rfl⟩ := List.cons.inj hrest
      rw [if_pos hx]
      exact ⟨x, [], rfl, by simpa using hx⟩
    · next hrest => cases hrest

theorem passesContent_takeBreak {c : Cursor} (h : c.atBreak = true) :
    PassesContent c c.takeBreak.2 := by
  obtain ⟨x, s, hrest, hbreak⟩ := exists_of_atBreak h
  exact ⟨x :: s, hrest, .of_forall fun d hd => ne_of_isBreak (hbreak d hd)⟩

theorem passesContent_advance {c : Cursor} (h : c.atSpace = true) :
    PassesContent c (c.advance 1) := by
  obtain ⟨rest, index, line, column⟩ := c
  cases rest with
  | nil => cases h
  | cons x rest =>
    obtain ⟨hquote, hescape⟩ := ne_of_isSpace h
    exact ⟨[x], rfl, .char hquote hescape .nil⟩

/-- A gap is made of blanks and line ends. -/
theorem passesContent_of_readGap {margin steps : Nat} {c c' : Cursor} {g g' : Gap}
    (h : readGap margin steps c g = .ok (g', c')) : PassesContent c c' := by
  induction steps generalizing c g with
  | zero => cases h
  | succ steps ih =>
    rw [readGap] at h
    split at h
    · next hspace =>
      have hstep := passesContent_advance hspace
      split at h
      · split at h
        · cases h
        · exact hstep.trans (ih h)
      · exact hstep.trans (ih h)
    · split at h
      · next hbreak =>
        have hstep := passesContent_takeBreak hbreak
        simp only at h
        split at h
        · exact hstep.trans (ih h)
        · exact hstep.trans (ih h)
      · simp only [Except.ok.injEq, Prod.mk.injEq] at h
        rw [← h.2]
        exact .refl c

/-- The digits of a number are hexadecimal digits. -/
theorem isSome_of_hexNumber? {t : Text} {n m : Nat}
    (h : t.foldlM (fun n c => (hexDigit? c).map (n * 16 + ·)) n = some m) :
    ∀ c ∈ t, (hexDigit? c).isSome := by
  induction t generalizing n with
  | nil => simp
  | cons c t ih =>
    rw [List.foldlM_cons] at h
    obtain ⟨k, hk, h⟩ := Option.bind_eq_some_iff.mp h
    obtain ⟨d, hd, -⟩ := Option.map_eq_some_iff.mp hk
    exact List.forall_mem_cons.mpr ⟨by rw [hd]; rfl, ih h⟩

/-- The character with the code that a number of digits behind the cursor's character writes. -/
def readCode (c : Cursor) (count : Nat) : Except Error (Char × Cursor) :=
  let digits := (c.rest.drop 1).take count
  match if digits.length = count then hexNumber? digits else none with
  | some n =>
    if (0xD800 ≤ n && n ≤ 0xDFFF) || 0x10FFFF < n then .error .badScalar
    else .ok (Char.ofNat n, c.advance (count + 1))
  | none => .error .badScalar

theorem readEscape_eq (c : Cursor) : readEscape c =
    match c.peek? with
    | some 'x' => readCode c 2
    | some 'u' => readCode c 4
    | some 'U' => readCode c 8
    | some x =>
      match shortEscapes.lookup x with
      | some y => .ok (y, c.advance 1)
      | none => .error .badScalar
    | none => .error .badScalar := rfl

theorem exists_of_readCode {c c' : Cursor} {x y : Char} {rest : Text} {count : Nat}
    (hrest : c.rest = x :: rest) (h : readCode c count = .ok (y, c')) :
    ∃ s, rest = s ++ c'.rest ∧ IsContent s := by
  rw [readCode, hrest] at h
  simp only [List.drop_succ_cons, List.drop_zero] at h
  split at h
  · next n hn =>
    split at hn
    · split at h
      · cases h
      · cases h
        refine ⟨rest.take count, ?_, .of_forall fun d hd => ?_⟩
        · rw [Cursor.advance, hrest, List.drop_succ_cons, List.take_append_drop]
        · exact ne_of_hexDigit? (isSome_of_hexNumber? hn d hd)
    · cases hn
  · cases h

/-- Behind the first character of an escape no quotes and backslashes belong to it. -/
theorem exists_of_readEscape {c c' : Cursor} {y : Char} (h : readEscape c = .ok (y, c')) :
    ∃ x s, c.rest = x :: (s ++ c'.rest) ∧ IsContent s := by
  have hpeek : c.peek? = c.rest.head? := rfl
  rw [readEscape_eq, hpeek] at h
  cases hrest : c.rest with
  | nil =>
    rw [hrest] at h
    cases h
  | cons x rest =>
    have hcode : ∀ count, readCode c count = .ok (y, c') →
        ∃ x' s, x :: rest = x' :: (s ++ c'.rest) ∧ IsContent s := by
      intro count hread
      obtain ⟨s, hs, hcontent⟩ := exists_of_readCode hrest hread
      exact ⟨x, s, by rw [hs], hcontent⟩
    rw [hrest] at h
    split at h
    · exact hcode 2 h
    · exact hcode 4 h
    · exact hcode 8 h
    · split at h
      · cases h
        exact ⟨x, [], by rw [Cursor.advance, hrest]; rfl, .nil⟩
      · cases h
    · cases h

theorem passesContent_of_rest {c : Cursor} {x : Char} {t : Text} (hrest : c.rest = x :: t)
    (hquote : x ≠ '\x22') (hescape : x ≠ '\\') : PassesContent c (c.advance 1) :=
  ⟨[x], by rw [Cursor.advance, hrest]; rfl, .char hquote hescape .nil⟩

/-- A backslash takes the character behind it with it. -/
theorem passesContent_of_backslash {c c' : Cursor} {t s : Text} {x : Char}
    (hrest : c.rest = '\\' :: t) (ht : t = x :: (s ++ c'.rest)) (hs : IsContent s) :
    PassesContent c c' :=
  ⟨'\\' :: x :: s, by rw [hrest, ht]; rfl, .escape hs⟩

/-- A run within a double-quoted scalar is content. -/
theorem passesContent_of_readQuotedRun {steps : Nat} {c c' : Cursor} {run : Text} {escaped : Bool}
    (h : readQuotedRun '\x22' steps c = .ok (run, escaped, c')) : PassesContent c c' := by
  induction steps generalizing c run escaped with
  | zero => cases h
  | succ steps ih =>
    rw [readQuotedRun] at h
    split at h
    · cases h
      exact .refl _
    · next x t hrest =>
      split at h
      · cases h
        exact .refl _
      split at h
      · split at h
        · next hsingle => exact absurd hsingle (by simp)
        · cases h
          exact .refl _
      next hquote =>
      have hquote : x ≠ '\x22' := by simpa using hquote
      split at h
      · next hescape =>
        have hescape : x = '\\' := by simpa using hescape
        rw [hescape] at hrest
        have hafter : (c.advance 1).rest = t := by rw [Cursor.advance, hrest]; rfl
        simp only at h
        split at h
        · next hbreak =>
          cases h
          obtain ⟨y, s, hs, hall⟩ := exists_of_atBreak hbreak
          rw [hafter] at hs
          exact passesContent_of_backslash hrest hs
            (.of_forall fun d hd => ne_of_isBreak (hall d (List.mem_cons_of_mem _ hd)))
        · obtain ⟨⟨y, d⟩, hread, h⟩ := exists_of_bind_eq_ok h
          obtain ⟨⟨run', escaped', e⟩, hrun, h⟩ := exists_of_bind_eq_ok h
          cases h
          obtain ⟨z, s, hs, hcontent⟩ := exists_of_readEscape hread
          rw [hafter] at hs
          exact (passesContent_of_backslash hrest hs hcontent).trans (ih hrun)
      · next hescape =>
        obtain ⟨⟨run', escaped', d⟩, hrun, h⟩ := exists_of_bind_eq_ok h
        cases h
        have hescape : x ≠ '\\' := by simpa using hescape
        exact (passesContent_of_rest hrest hquote hescape).trans (ih hrun)

/-! ## The content of a scalar -/

/-- From within a scalar the reader passes content on the way to a double quote. -/
theorem exists_of_readQuotedRest {steps : Nat} {c c' : Cursor} {text : Text}
    (h : readQuotedRest '\x22' steps c = .ok (text, c')) :
    ∃ content, c.rest = content ++ '\x22' :: c'.rest ∧ IsContent content := by
  induction steps generalizing c text with
  | zero => cases h
  | succ steps ih =>
    rw [readQuotedRest] at h
    split at h
    · cases h
    · obtain ⟨⟨run, escaped, d⟩, hrun, h⟩ := exists_of_bind_eq_ok h
      obtain ⟨s, hs, hcontent⟩ := passesContent_of_readQuotedRun hrun
      simp only at h
      split at h
      · next hclose =>
        cases h
        obtain ⟨rest, hrest⟩ := List.head?_eq_some_iff.mp (beq_iff_eq.mp hclose)
        exact ⟨s, by rw [hs, hrest, Cursor.advance, hrest]; rfl, hcontent⟩
      · obtain ⟨⟨gap, e⟩, hgap, h⟩ := exists_of_bind_eq_ok h
        obtain ⟨⟨more, f⟩, hmore, h⟩ := exists_of_bind_eq_ok h
        cases h
        obtain ⟨t, ht, hcontent'⟩ := passesContent_of_readGap hgap
        obtain ⟨u, hu, hcontent''⟩ := ih hmore
        refine ⟨s ++ (t ++ u), ?_, hcontent.append (hcontent'.append hcontent'')⟩
        rw [hs, ht, hu, List.append_assoc, List.append_assoc]

/-- **What the reader reads as a double-quoted scalar is content between two double quotes.** -/
theorem exists_of_readQuoted {c c' : Cursor} {text t : Text} (hrest : c.rest = '\x22' :: t)
    (h : readQuoted '\x22' c = .ok (text, c')) :
    ∃ content, t = content ++ '\x22' :: c'.rest ∧ IsContent content := by
  obtain ⟨content, hcontent, hform⟩ := exists_of_readQuotedRest h
  rw [Cursor.advance, hrest] at hcontent
  exact ⟨content, hcontent, hform⟩

/-- With a double quote on both sides the reader reads the text as one scalar. -/
def IsReadAsContent (content : Text) : Prop :=
  ∃ text c, readQuoted '\x22' (Cursor.ofText ('\x22' :: (content ++ ['\x22']))) = .ok (text, c) ∧
    c.rest = []

theorem IsReadAsContent.isContent {content : Text} (h : IsReadAsContent content) :
    IsContent content := by
  obtain ⟨text, c, hread, hrest⟩ := h
  obtain ⟨content', heq, hcontent⟩ := exists_of_readQuoted rfl hread
  rw [hrest] at heq
  rwa [List.append_cancel_right heq]

end WorkflowLens.Yaml
