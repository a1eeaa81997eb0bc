import WorkflowLens.Proofs.Tree.Anchors

/-!
# What a search for a node finds

Each of the three searches goes through the text from an offset on and stops at the first place
where what it looks for stands.  Here this is said without the search: where a key, a scalar's text
or an item marker stands, and that what is found is the first of these places.

* `KeyAt`, `LineAt`, `MarkerAt`: what stands at an offset, and the anchor that comes of it.
* `StandsAt`: what is looked for when a node is located.
* `found?_eq_some_iff`: a search finds the first place, if there is one.
-/

namespace WorkflowLens.Tree

/-! ## The first place -/

/-- An anchor belongs to the first offset that has one. -/
def IsFirst (P : Nat → Anchor → Prop) (a : Anchor) : Prop :=
  ∃ p, P p a ∧ ∀ q b, P q b → p ≤ q

theorem isFirst_iff_eq {P : Nat → Anchor → Prop} {p : Nat} {a b : Anchor} (hb : P p b)
    (hfirst : ∀ q c, P q c → p ≤ q) (hunique : ∀ c, P p c → c = b) : IsFirst P a ↔ b = a := by
  constructor
  · rintro ⟨q, hq, hleast⟩
    obtain rfl : q = p := Nat.le_antisymm (hleast p b hb) (hfirst q a hq)
    exact (hunique a hq).symm
  · rintro rfl
    exact ⟨p, hb, hfirst⟩

theorem isFirst_congr {P Q : Nat → Anchor → Prop} (h : ∀ p a, P p a ↔ Q p a) {a : Anchor} :
    IsFirst P a ↔ IsFirst Q a := by
  simp only [IsFirst, h]

theorem not_isFirst {P : Nat → Anchor → Prop} (h : ∀ p a, ¬ P p a) (a : Anchor) :
    ¬ IsFirst P a :=
  fun ⟨p, hp, _⟩ => h p a hp

/-! ## Keys -/

/-- A name stands as a key at an offset, and this is its anchor.  Whether it is outside comments is
told by counting quotes, as the search does. -/
def KeyAt (text name : Text) (p : Nat) (a : Anchor) : Prop :=
  ∃ before after quote blanks rest, text = before ++ (name ++ after) ∧ before.byteSize = p ∧
    IsKey before after quote blanks rest ∧ a = keyAnchor before name quote blanks

variable {text name : Text} {a : Anchor}

theorem keyAt?_eq_some_iff {before after : Text} (htext : text = before ++ (name ++ after)) :
    keyAt? text name before.byteSize = .ok (some a) ↔ KeyAt text name before.byteSize a := by
  constructor
  · intro h
    rw [htext] at h
    obtain ⟨quote, blanks, rest, hkey, ha⟩ := isKey_of_keyAt? h
    exact ⟨before, after, quote, blanks, rest, htext, rfl, hkey, ha⟩
  · rintro ⟨before', after', quote, blanks, rest, rfl, hsize, hkey, rfl⟩
    rw [← hsize]
    exact keyAt?_of_isKey hkey

/-- Of several places of a name, in order, the first one is found that is a key. -/
theorem firstKey?_eq_some_iff {starts : List Nat} (hsorted : starts.Pairwise (· < ·))
    (hstarts : ∀ s ∈ starts, ∃ before after, text = before ++ (name ++ after) ∧
      before.byteSize = s) :
    firstKey? text name starts = .ok (some a) ↔
      IsFirst (fun p b => p ∈ starts ∧ KeyAt text name p b) a := by
  induction starts with
  | nil =>
    exact iff_of_false (by simp [firstKey?])
      (not_isFirst (fun p b hp => absurd hp.1 List.not_mem_nil) a)
  | cons s starts ih =>
    obtain ⟨hlt, hrest⟩ := List.pairwise_cons.mp hsorted
    obtain ⟨before, after, htext, rfl⟩ := hstarts s (List.mem_cons_self ..)
    have hhere := fun b => @keyAt?_eq_some_iff text name b before after htext
    obtain ⟨found, hfound⟩ : ∃ found, keyAt? text name before.byteSize = .ok found := by
      rw [htext]
      exact ⟨_, keyAt?_append before name after⟩
    cases found with
    | some b =>
      have hkey := (hhere b).mp hfound
      have hsome : firstKey? text name (before.byteSize :: starts) = .ok (some b) := by
        rw [firstKey?, hfound]
        rfl
      rw [hsome, Except.ok.injEq, Option.some.injEq, eq_comm, eq_comm (a := a)]
      refine (isFirst_iff_eq ⟨List.mem_cons_self .., hkey⟩ (fun q c hq => ?_) fun c hc => ?_).symm
      · rcases List.mem_cons.mp hq.1 with rfl | hmem
        · exact Nat.le_refl _
        · exact Nat.le_of_lt (hlt q hmem)
      · have hc' := (hhere c).mpr hc.2
        rw [hfound, Except.ok.injEq, Option.some.injEq] at hc'
        exact hc'.symm
    | none =>
      have hnone : firstKey? text name (before.byteSize :: starts)
          = firstKey? text name starts := by
        rw [firstKey?, hfound]
        rfl
      rw [hnone, ih hrest fun q hq => hstarts q (List.mem_cons_of_mem _ hq)]
      refine isFirst_congr fun p b => ?_
      rw [List.mem_cons]
      refine ⟨fun hp => ⟨.inr hp.1, hp.2⟩, fun hp => ⟨hp.1.resolve_left ?_, hp.2⟩⟩
      rintro rfl
      rw [(hhere b).mpr hp.2] at hfound
      cases hfound

/-- The places of a name from an offset on, none of which overlaps the one before it. -/
def PlaceFrom (text : Text) (cursor : Nat) (name : Text) (p : Nat) : Prop :=
  ∃ past rest, text = past ++ rest ∧ past.byteSize = cursor ∧
    p ∈ Text.occurrencesFrom name cursor 0 rest

theorem placeFrom_append_iff {past rest : Text} {p : Nat} :
    PlaceFrom (past ++ rest) past.byteSize name p ↔
      p ∈ Text.occurrencesFrom name past.byteSize 0 rest := by
  constructor
  · rintro ⟨past', rest', htext, hsize, hp⟩
    obtain ⟨rfl, rfl⟩ := Text.append_inj_of_byteSize_eq htext hsize.symm
    exact hp
  · exact fun hp => ⟨past, rest, rfl, rfl, hp⟩

theorem findKey?_eq_some_iff {past rest : Text} :
    findKey? (past ++ rest) past.byteSize name = .ok (some a) ↔
      IsFirst (fun p b => name ≠ [] ∧ PlaceFrom (past ++ rest) past.byteSize name p ∧
        KeyAt (past ++ rest) name p b) a := by
  by_cases hname : name = []
  · have hnone : findKey? (past ++ rest) past.byteSize name = .ok none := by
      rw [findKey?, hname]
      rfl
    rw [hnone]
    exact iff_of_false (by simp) (not_isFirst (fun p b hp => hp.1 hname) a)
  · rw [findKey?_append hname, firstKey?_eq_some_iff (Text.pairwise_lt_occurrencesFrom ..)]
    · refine isFirst_congr fun p b => ?_
      rw [placeFrom_append_iff]
      exact ⟨fun hp => ⟨hname, hp⟩, fun hp => hp.2⟩
    · intro s hs
      obtain ⟨between, after, rfl, rfl⟩ := Text.occurrencesFrom_sound hs
      exact ⟨past ++ between, after, by simp only [List.append_assoc], Text.byteSize_append ..⟩

/-! ## Scalars -/

/-- A piece of a line stands at an offset, and this is its anchor. -/
def LineAt (text line : Text) (p : Nat) (a : Anchor) : Prop :=
  ∃ before after, text = before ++ (line ++ after) ∧ before.byteSize = p ∧
    a = ⟨p, p + line.byteSize⟩

/-- The first line of the text of a scalar, without the blanks around. -/
def firstLine (value : Text) : Text := Text.trim (value.takeWhile fun c => c != '\n')

theorem findScalar?_eq_some_iff {past rest value : Text} :
    findScalar? (past ++ rest) past.byteSize value = .ok (some a) ↔
      IsFirst (fun p b => firstLine value ≠ [] ∧ past.byteSize ≤ p ∧
        LineAt (past ++ rest) (firstLine value) p b) a := by
  rw [findScalar?, Text.cut_append, ← firstLine]
  generalize firstLine value = line
  by_cases hline : line = []
  · refine iff_of_false ?_ (not_isFirst (fun p b hp => hp.1 hline) a)
    rw [hline]
    exact fun h => by cases h
  · have hfind : ∀ {q : Nat} {b : Anchor}, past.byteSize ≤ q → LineAt (past ++ rest) line q b →
        ∃ between after, rest = between ++ (line ++ after) ∧
          q = past.byteSize + Text.byteSize between := by
      rintro q b hle ⟨before, after, htext, rfl, -⟩
      obtain ⟨between, rfl, hrest⟩ := Text.exists_append_of_byteSize_le htext hle
      exact ⟨between, after, hrest, Text.byteSize_append ..⟩
    have hempty : line.isEmpty = false := by simpa using hline
    simp only [hempty, Bool.false_eq_true, if_false, bind, Except.bind, pure, Except.pure,
      Except.ok.injEq, Option.map_eq_some_iff]
    constructor
    · rintro ⟨distance, hdistance, rfl⟩
      obtain ⟨⟨between, after, rfl, rfl⟩, hfirst⟩ := Text.find?_eq_some_iff.mp hdistance
      refine ⟨past.byteSize + Text.byteSize between, ⟨hline, Nat.le_add_right .., past ++ between,
        after, by simp only [List.append_assoc], Text.byteSize_append .., rfl⟩, fun q b hq => ?_⟩
      obtain ⟨between', after', hrest, rfl⟩ := hfind hq.2.1 hq.2.2
      exact Nat.add_le_add_left (hfirst between' after' hrest) _
    · rintro ⟨p, ⟨-, hle, hat⟩, hfirst⟩
      obtain ⟨between, after, rfl, rfl⟩ := hfind hle hat
      obtain ⟨before, after', -, -, rfl⟩ := hat
      refine ⟨Text.byteSize between, Text.find?_eq_some_iff.mpr ⟨⟨between, after, rfl, rfl⟩, ?_⟩,
        rfl⟩
      intro between' after' hrest
      have hnext := hfirst (past.byteSize + Text.byteSize between') ⟨_, _⟩ ⟨hline,
        Nat.le_add_right .., past ++ between', after', by rw [hrest, List.append_assoc],
        Text.byteSize_append .., rfl⟩
      omega

/-! ## Item markers -/

/-- An item marker stands at an offset, and this is its anchor: the opener, or a dash between
blanks. -/
def MarkerAt (text : Text) (opener : Char) (p : Nat) (a : Anchor) : Prop :=
  ∃ before c after, text = before ++ c :: after ∧ Text.byteSize before = p ∧
    (c = opener ∨ c = '-' ∧ before.getLast?.all Text.isBlank = true ∧
      after.head?.all Text.isBlank = true) ∧
    a = ⟨p, p + c.utf8Size⟩

variable {opener : Char}

/-- A character of a text is a marker or not, and the characters before it are none of those at or
after it. -/
theorem markerAt_cons_iff {past rest : Text} {c : Char} {p : Nat} :
    past.byteSize ≤ p ∧ MarkerAt (past ++ c :: rest) opener p a ↔
      (p = past.byteSize ∧ a = ⟨p, p + c.utf8Size⟩ ∧
        (c = opener ∨ c = '-' ∧ past.getLast?.all Text.isBlank = true ∧
          rest.head?.all Text.isBlank = true)) ∨
      Text.byteSize (past ++ [c]) ≤ p ∧ MarkerAt (past ++ c :: rest) opener p a := by
  constructor
  · rintro ⟨hle, before, d, after, htext, rfl, hmarker, rfl⟩
    obtain ⟨between, rfl, hrest⟩ := Text.exists_append_of_byteSize_le htext hle
    cases between with
    | nil =>
      rw [List.nil_append, List.cons.injEq] at hrest
      obtain ⟨rfl, rfl⟩ := hrest
      rw [List.append_nil] at hmarker ⊢
      exact .inl ⟨rfl, rfl, hmarker⟩
    | cons e between =>
      rw [List.cons_append, List.cons.injEq] at hrest
      refine .inr ⟨?_, _, d, after, htext, rfl, hmarker, rfl⟩
      rw [hrest.1]
      simp only [Text.byteSize_append, Text.byteSize_cons, Text.byteSize_nil]
      omega
  · rintro (⟨rfl, rfl, hmarker⟩ | ⟨hle, hat⟩)
    · exact ⟨Nat.le_refl _, past, c, rest, rfl, rfl, hmarker, rfl⟩
    · rw [Text.byteSize_append] at hle
      exact ⟨by omega, hat⟩

theorem markerIn?_eq_some_iff {past rest : Text} :
    markerIn? opener past.byteSize past.getLast? rest = some a ↔
      IsFirst (fun p b => past.byteSize ≤ p ∧ MarkerAt (past ++ rest) opener p b) a := by
  induction rest generalizing past with
  | nil =>
    refine iff_of_false (by simp [markerIn?]) (not_isFirst (fun p b hp => ?_) a)
    obtain ⟨hle, before, c, after, htext, rfl, -⟩ := hp
    have hpos := c.utf8Size_pos
    have hsize := congrArg Text.byteSize htext
    simp only [Text.byteSize_append, Text.byteSize_cons, Text.byteSize_nil] at hsize
    omega
  | cons c rest ih =>
    rw [isFirst_congr fun p b => markerAt_cons_iff, markerIn?]
    split
    · next hmarker =>
      have hhere : c = opener ∨ c = '-' ∧ past.getLast?.all Text.isBlank = true ∧
          rest.head?.all Text.isBlank = true := by
        rw [Bool.or_eq_true, Bool.and_eq_true, Bool.and_eq_true, beq_iff_eq, beq_iff_eq,
          and_assoc] at hmarker
        exact hmarker.symm
      have hpos := c.utf8Size_pos
      rw [Option.some.injEq]
      refine (isFirst_iff_eq (.inl ⟨rfl, rfl, hhere⟩) (fun q b hq => ?_) fun b hb => ?_).symm
      · rcases hq with ⟨rfl, -⟩ | ⟨hle, -⟩
        · exact Nat.le_refl _
        · rw [Text.byteSize_append] at hle
          omega
      · rcases hb with ⟨-, rfl, -⟩ | ⟨hle, -⟩
        · rfl
        · rw [Text.byteSize_append, Text.byteSize_cons] at hle
          omega
    · next hmarker =>
      have hhere : ¬ (c = opener ∨ c = '-' ∧ past.getLast?.all Text.isBlank = true ∧
          rest.head?.all Text.isBlank = true) := by
        rw [Bool.or_eq_true, Bool.and_eq_true, Bool.and_eq_true, beq_iff_eq, beq_iff_eq,
          and_assoc] at hmarker
        exact fun h => hmarker h.symm
      have hsize : past.byteSize + c.utf8Size = Text.byteSize (past ++ [c]) := by
        rw [Text.byteSize_append, Text.byteSize_cons, Text.byteSize_nil, Nat.add_zero]
      have htext : past ++ c :: rest = past ++ [c] ++ rest := by
        rw [List.append_assoc, List.singleton_append]
      have hnext := @ih (past ++ [c])
      rw [List.getLast?_concat] at hnext
      rw [hsize, hnext, ← htext]
      refine isFirst_congr fun p b => ⟨.inr, fun hp => hp.resolve_left fun h => hhere h.2.2⟩

theorem findMarker?_eq_some_iff {past rest : Text} :
    findMarker? (past ++ rest) past.byteSize opener = .ok (some a) ↔
      IsFirst (fun p b => past.byteSize ≤ p ∧ MarkerAt (past ++ rest) opener p b) a := by
  rw [findMarker?_append, Except.ok.injEq, markerIn?_eq_some_iff]

/-! ## Nodes -/

/-- What is looked for from an offset on when a node is located stands at a place, and this is its
anchor. -/
def StandsAt (text : Text) (cursor : Nat) (n : Node) (p : Nat) (a : Anchor) : Prop :=
  match n.name, n.shape, n.value with
  | some name, _, _ =>
    name.toList ≠ [] ∧ PlaceFrom text cursor name.toList p ∧ KeyAt text name.toList p a
  | none, .scalar, some value =>
    firstLine value.toList ≠ [] ∧ cursor ≤ p ∧ LineAt text (firstLine value.toList) p a
  | none, .scalar, none => False
  | none, .mapping, _ => cursor ≤ p ∧ MarkerAt text '{' p a
  | none, .sequence, _ => cursor ≤ p ∧ MarkerAt text '[' p a

/-- **A search finds the first place where what it looks for stands**, and nothing if there is no
such place. -/
theorem found?_eq_some_iff {cursor : Nat} (h : text.isBoundary cursor = true) (n : Node) :
    found? text cursor n = some a ↔ IsFirst (StandsAt text cursor n) a := by
  have hok : found? text cursor n = some a ↔ findAnchor? text cursor n = .ok (some a) := by
    rw [findAnchor?_eq h, Except.ok.injEq]
  rw [hok]
  obtain ⟨past, rest, rfl, rfl⟩ := Text.isBoundary_iff.mp h
  obtain ⟨name, value, shape, parent, children, index, stop, span⟩ := n
  cases name with
  | some name => exact findKey?_eq_some_iff
  | none =>
    cases shape with
    | mapping => exact findMarker?_eq_some_iff
    | sequence => exact findMarker?_eq_some_iff
    | scalar =>
      cases value with
      | some value => exact findScalar?_eq_some_iff
      | none => exact iff_of_false (by simp [findAnchor?]) (not_isFirst (fun p b hp => hp) a)

end WorkflowLens.Tree
