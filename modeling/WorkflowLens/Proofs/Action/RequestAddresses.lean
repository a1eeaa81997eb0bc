import WorkflowLens.Action.Fetch
import WorkflowLens.Action.ProjectFiles
import WorkflowLens.Proofs.Text.Occurrences
import WorkflowLens.Proofs.Text.Pieces
import WorkflowLens.Yaml.Cursor

/-!
# What a request asks for

The address of a request for a file is put together from the owner, the repository, the path and
the ref as they are.  The host takes it apart: the fragment begins at the first number sign, the
query at the first question mark in front of it, and the parameters of the query stand between
ampersands.  In each part a percent sign with two hexadecimal digits stands for a byte.

So a field is read as it was meant unless it has one of these marks in it.  No mark is made good by
the rest of the address: a field that is cut short or has an escape in it is read with fewer bytes
than it has.  The slashes, equals signs and question marks of a ref do no harm, because the query
has already begun there.

* `HasEscape`: a percent sign that stands for a byte, with `unescape_eq_bytes_iff`.
* `unescape?_eq_some_iff`: a beginning of a text is read as the text only if it is all of it.
* `Address`: an address taken apart.
* `Address.reads_iff`: when a path and a ref are read as they are.
* `ContentRequest.asksFor_spec`: the requests that ask for their files.
-/

namespace WorkflowLens

open Yaml (hexDigit?)

namespace Text

/-! ## Escapes -/

/-- The bytes of a text. -/
def bytes (t : Text) : List UInt8 := t.flatMap String.utf8EncodeChar

theorem bytes_cons (c : Char) (t : Text) :
    bytes (c :: t) = String.utf8EncodeChar c ++ bytes t := List.flatMap_cons

theorem length_bytes (t : Text) : (bytes t).length = byteSize t := by
  induction t with
  | nil => rfl
  | cons c t ih =>
    rw [bytes_cons, List.length_append, String.length_utf8EncodeChar, ih, byteSize_cons]

/-- Bytes are read as the text whose bytes they are. -/
theorem textOf?_eq_some_iff {bs : List UInt8} {t : Text} :
    FileTree.textOf? bs = some t ↔ bs = bytes t := by
  have hbytes : (⟨bs.toArray⟩ : ByteArray) = bs.toByteArray := by
    rw [ByteArray.ext_iff, List.data_toByteArray]
  unfold FileTree.textOf? String.fromUTF8?
  rw [hbytes]
  split
  · next hvalid =>
    rw [Option.map_some, Option.some.injEq, ← String.toList_ofList (l := t), String.toList_inj,
      ← String.toByteArray_inj, String.toByteArray_ofList, String.toList_ofList]
    exact List.toByteArray_inj
  · next hinvalid =>
    refine iff_of_false nofun ?_
    rintro rfl
    exact hinvalid ⟨t, rfl⟩

/-- The bytes for which a part of an address stands.  A percent sign with two hexadecimal digits
stands for a byte, and everything else for itself. -/
def unescape : Text → List UInt8
  | [] => []
  | '%' :: a :: b :: t =>
    match hexDigit? a, hexDigit? b with
    | some high, some low => UInt8.ofNat (high * 16 + low) :: unescape t
    | _, _ => String.utf8EncodeChar '%' ++ unescape (a :: b :: t)
  | c :: t => String.utf8EncodeChar c ++ unescape t

/-- The text for which a part of an address stands, if its bytes are those of a text. -/
def unescape? (t : Text) : Option Text := FileTree.textOf? (unescape t)

/-- A percent sign with two hexadecimal digits behind it stands in a text. -/
def HasEscape (t : Text) : Prop :=
  ∃ a b, (hexDigit? a).isSome ∧ (hexDigit? b).isSome ∧ ['%', a, b] <:+: t

theorem hasEscape_cons_iff (c : Char) (t : Text) : HasEscape (c :: t) ↔
    (∃ a b, (hexDigit? a).isSome ∧ (hexDigit? b).isSome ∧ ['%', a, b] <+: c :: t) ∨
      HasEscape t := by
  simp only [HasEscape, List.infix_cons_iff, and_or_left, exists_or]

theorem length_unescape_le (t : Text) : (unescape t).length ≤ byteSize t := by
  fun_induction unescape t with
  | case1 => exact Nat.le_refl 0
  | case2 a b t high low hb ha ih =>
    have hsize := a.utf8Size_pos
    rw [List.length_cons, byteSize_cons, byteSize_cons, byteSize_cons]
    omega
  | case3 a b t _ ih =>
    rw [List.length_append, String.length_utf8EncodeChar, byteSize_cons]
    omega
  | case4 c t _ ih =>
    rw [List.length_append, String.length_utf8EncodeChar, byteSize_cons]
    omega

/-- **A text stands for itself exactly if it has no escapes.**  An escape takes more bytes than the
one for which it stands. -/
theorem unescape_eq_bytes_iff (t : Text) : unescape t = bytes t ↔ ¬ HasEscape t := by
  fun_induction unescape t with
  | case1 => simp [bytes, HasEscape]
  | case2 a b t high low hb ha ih =>
    have hescape : HasEscape ('%' :: a :: b :: t) :=
      ⟨a, b, by rw [ha]; rfl, by rw [hb]; rfl, (List.prefix_append ['%', a, b] t).isInfix⟩
    refine iff_of_false (fun h => ?_) (not_not_intro hescape)
    have hlength := congrArg List.length h
    have hle := length_unescape_le t
    have hsize := a.utf8Size_pos
    have hpercent : '%'.utf8Size = 1 := rfl
    have hsize' := b.utf8Size_pos
    rw [List.length_cons, length_bytes, byteSize_cons, byteSize_cons, byteSize_cons] at hlength
    omega
  | case3 a b t hdigits ih =>
    rw [bytes_cons, List.append_cancel_left_eq, ih, hasEscape_cons_iff '%', not_or, iff_and_self]
    rintro - ⟨a', b', ha, hb, hprefix⟩
    obtain ⟨rfl, rfl⟩ : a' = a ∧ b' = b := by simpa using hprefix
    obtain ⟨high, hhigh⟩ := Option.isSome_iff_exists.mp ha
    obtain ⟨low, hlow⟩ := Option.isSome_iff_exists.mp hb
    exact hdigits high low hhigh hlow
  | case4 c t hnot ih =>
    rw [bytes_cons, List.append_cancel_left_eq, ih, hasEscape_cons_iff, not_or, iff_and_self]
    rintro - ⟨a, b, -, -, rest, hrest⟩
    exact hnot a b rest (List.cons.inj hrest).1.symm (List.cons.inj hrest).2.symm

instance (t : Text) : Decidable (HasEscape t) :=
  decidable_of_iff (unescape t ≠ bytes t) (by rw [ne_eq, unescape_eq_bytes_iff, not_not])

/-- A percent sign at the end stands for itself, and so does one with a letter behind it. -/
example : HasEscape "50%25".toList ∧ ¬ HasEscape "50%".toList ∧ ¬ HasEscape "50%off".toList := by
  decide +kernel

/-- **A beginning of a text is read as the text only if it is all of it.** -/
theorem unescape?_eq_some_iff {s t : Text} (h : s <+: t) :
    unescape? s = some t ↔ s = t ∧ ¬ HasEscape t := by
  rw [unescape?, textOf?_eq_some_iff]
  constructor
  · intro hs
    obtain ⟨rest, rfl⟩ := h
    have hle := length_unescape_le s
    rw [hs, length_bytes, byteSize_append] at hle
    have hrest : rest = [] := by
      by_contra hne
      have hpos := byteSize_pos hne
      omega
    rw [hrest, List.append_nil] at hs ⊢
    exact ⟨rfl, (unescape_eq_bytes_iff s).mp hs⟩
  · rintro ⟨rfl, hescape⟩
    exact (unescape_eq_bytes_iff s).mpr hescape

/-! ## Fields -/

/-- None of the marks stands in a text, and no escape. -/
def IsLiteral (marks : List Char) (t : Text) : Prop :=
  (∀ c ∈ marks, c ∉ t) ∧ ¬ HasEscape t

-- the marks are looked through one after the other, not all characters
instance (marks : List Char) (t : Text) : Decidable (IsLiteral marks t) :=
  @instDecidableAnd _ _ (List.decidableBAll (fun c => c ∉ t) marks) inferInstance

section

variable {marks : List Char} {c : Char} {s : Text}

/-- A slash is not part of an escape. -/
theorem slash_not_mem_escape {a b : Char} (ha : (hexDigit? a).isSome) (hb : (hexDigit? b).isSome) :
    '/' ∉ ['%', a, b] := by
  have hslash : hexDigit? '/' = none := rfl
  simp only [List.mem_cons, List.not_mem_nil, or_false]
  rintro (h | rfl | rfl)
  · exact absurd h (by decide)
  · rw [hslash] at ha
    cases ha
  · rw [hslash] at hb
    cases hb

theorem hasEscape_append_slash (s t : Text) :
    HasEscape (s ++ '/' :: t) ↔ HasEscape s ∨ HasEscape t := by
  simp only [HasEscape, ← exists_or, ← and_or_left]
  exact exists_congr fun a => exists_congr fun b => and_congr_right fun ha =>
    and_congr_right fun hb => infix_append_cons_iff (slash_not_mem_escape ha hb) s t

theorem hasEscape_dropWhile_slash (t : Text) :
    HasEscape (t.dropWhile (· == '/')) ↔ HasEscape t := by
  refine exists_congr fun a => exists_congr fun b => and_congr_right fun ha =>
    and_congr_right fun hb => infix_dropWhile_iff (fun c hc => ?_) t
  exact beq_eq_false_iff_ne.mpr fun h => slash_not_mem_escape ha hb (h ▸ hc)

theorem mem_dropWhile_slash (hc : c ≠ '/') (t : Text) : c ∈ t.dropWhile (· == '/') ↔ c ∈ t := by
  conv_rhs => rw [← List.takeWhile_append_dropWhile (p := (· == '/')) (l := t), List.mem_append]
  refine ⟨.inr, Or.rec (fun h => ?_) id⟩
  have hslash : (c == '/') = true := List.mem_takeWhile_imp (p := (· == '/')) h
  exact absurd (beq_iff_eq.mp hslash) hc

/-- Fields with slashes between them are literal together exactly if all of them are. -/
theorem isLiteral_append_slash (hslash : '/' ∉ marks) (s t : Text) :
    IsLiteral marks (s ++ '/' :: t) ↔ IsLiteral marks s ∧ IsLiteral marks t := by
  have hmem : ∀ c ∈ marks, c ∉ s ++ '/' :: t ↔ c ∉ s ∧ c ∉ t := by
    intro c hc
    have hne : c ≠ '/' := fun h => hslash (h ▸ hc)
    simp [hne]
  rw [IsLiteral, forall₂_congr hmem, hasEscape_append_slash]
  simp only [IsLiteral, forall_and, not_or]
  tauto

theorem isLiteral_dropWhile_slash (hslash : '/' ∉ marks) (t : Text) :
    IsLiteral marks (t.dropWhile (· == '/')) ↔ IsLiteral marks t := by
  refine and_congr (forall₂_congr fun c hc => ?_) (not_congr (hasEscape_dropWhile_slash t))
  exact not_congr (mem_dropWhile_slash (fun h => hslash (h ▸ hc)) t)

/-! ## Taking apart -/

/-- The text in front of the first place of a character, and the text behind it. -/
def cutFirst (c : Char) (t : Text) : Text × Option Text :=
  match splitAtFirst? [c] t with
  | some (before, after) => (before, some after)
  | none => (t, none)

theorem cutFirst_append_cons (h : c ∉ s) (t : Text) : cutFirst c (s ++ c :: t) = (s, some t) := by
  rw [cutFirst, splitAtFirst?_singleton_eq_some_iff.mpr ⟨rfl, h⟩]

theorem cutFirst_of_not_mem (h : c ∉ s) : cutFirst c s = (s, none) := by
  rw [cutFirst]
  split
  · next before after hsplit =>
    rw [splitAtFirst?_singleton_eq_some_iff] at hsplit
    rw [hsplit.1] at h
    exact absurd (List.mem_append_right before List.mem_cons_self) h
  · rfl

theorem cutFirst_cases (c : Char) (t : Text) : (c ∉ t ∧ cutFirst c t = (t, none)) ∨
    ∃ before after, t = before ++ c :: after ∧ c ∉ before ∧
      cutFirst c t = (before, some after) := by
  by_cases ht : c ∈ t
  · obtain ⟨before, after, rfl, hbefore⟩ := List.eq_append_cons_of_mem ht
    exact .inr ⟨before, after, rfl, hbefore, cutFirst_append_cons hbefore after⟩
  · exact .inl ⟨ht, cutFirst_of_not_mem ht⟩

theorem cutFirst_append (h : c ∉ s) (t : Text) :
    cutFirst c (s ++ t) = (s ++ (cutFirst c t).1, (cutFirst c t).2) := by
  rcases cutFirst_cases c t with ⟨ht, hcut⟩ | ⟨before, after, rfl, hbefore, hcut⟩
  · rw [hcut, cutFirst_of_not_mem (by simp [h, ht])]
  · rw [hcut, ← List.append_assoc, cutFirst_append_cons (by simp [h, hbefore])]

theorem not_mem_cutFirst (c : Char) (t : Text) : c ∉ (cutFirst c t).1 := by
  rcases cutFirst_cases c t with ⟨ht, hcut⟩ | ⟨before, after, -, hbefore, hcut⟩
  · rwa [hcut]
  · rwa [hcut]

theorem cutFirst_isPrefix (c : Char) (t : Text) : (cutFirst c t).1 <+: t := by
  rcases cutFirst_cases c t with ⟨-, hcut⟩ | ⟨before, after, rfl, -, hcut⟩
  · simp [hcut]
  · simp [hcut]

theorem cutFirst_eq_self_iff {t : Text} : (cutFirst c t).1 = t ↔ c ∉ t := by
  refine ⟨fun h => ?_, fun h => by rw [cutFirst_of_not_mem h]⟩
  rw [← h]
  exact not_mem_cutFirst c t

end

end Text

open Text

/-- An address, taken apart. -/
structure Address where
  scheme : Text
  host : Text
  path : Text
  query : Option Text
  fragment : Option Text
  deriving DecidableEq, Repr

/-- The path at which the host has a file. -/
def RemoteFile.contentPath (f : RemoteFile) : Text :=
  '/' :: ("repos/".toList ++ f.owner ++ '/' :: f.repo ++ "/contents/".toList
    ++ f.path.dropWhile (· == '/'))

namespace Address

/-- The parts of an address that names its scheme and its host. -/
def ofText? (t : Text) : Option Address :=
  let (t, fragment) := cutFirst '#' t
  let (t, query) := cutFirst '?' t
  (splitAtFirst? "://".toList t).map fun (scheme, t) =>
    { scheme, host := t.takeWhile (· != '/'), path := t.dropWhile (· != '/'), query, fragment }

/-- What stands behind the host is taken apart by itself. -/
theorem ofText?_append_slash (rest : Text) :
    ofText? ("https://api.github.com".toList ++ '/' :: rest) = some
      { scheme := "https".toList, host := "api.github.com".toList
        path := (cutFirst '?' (cutFirst '#' ('/' :: rest)).1).1
        query := (cutFirst '?' (cutFirst '#' ('/' :: rest)).1).2
        fragment := (cutFirst '#' ('/' :: rest)).2 } := by
  have hslash : ∀ c, c ≠ '/' → ∀ t,
      cutFirst c ('/' :: t) = ('/' :: (cutFirst c t).1, (cutFirst c t).2) :=
    fun c hc => cutFirst_append (s := ['/']) (by simpa using hc)
  rw [ofText?, cutFirst_append (by decide), hslash '#' (by decide)]
  dsimp only
  rw [cutFirst_append (by decide), hslash '?' (by decide)]
  rfl

/-- The names and values of the parameters of a query.  A parameter without an equals sign has an
empty value. -/
def parameters (query : Text) : List (Option Text × Option Text) :=
  (query.splitOn '&').map fun piece =>
    (unescape? (cutFirst '=' piece).1, unescape? ((cutFirst '=' piece).2.getD []))

/-- The path of an address is that of a file, and the only parameter is the ref of the file. -/
def AsksFor (a : Address) (f : RemoteFile) : Prop :=
  unescape? a.path = some f.contentPath ∧
    a.query.map parameters = some [(some "ref".toList, some f.ref)]

/-- **A beginning of a ref is read as the ref only if it is all of it.** -/
theorem parameters_ref_eq_iff {value ref : Text} (h : value <+: ref) :
    parameters ("ref=".toList ++ value) = [(some "ref".toList, some ref)] ↔
      value = ref ∧ '&' ∉ ref ∧ ¬ HasEscape ref := by
  have hname : unescape? "ref".toList = some "ref".toList :=
    (unescape?_eq_some_iff List.prefix_rfl).mpr ⟨rfl, by decide +kernel⟩
  by_cases hamp : '&' ∈ value
  · -- there are several parameters
    refine iff_of_false (fun hparameters => ?_) ?_
    · obtain ⟨front, rest, rfl⟩ := List.append_of_mem hamp
      have hlength := congrArg List.length hparameters
      rw [parameters, ← List.append_assoc, List.splitOn_append_cons_self, List.length_map,
        List.length_append, List.length_singleton] at hlength
      have hfront := List.length_pos_of_ne_nil (List.splitOn_ne_nil '&' ("ref=".toList ++ front))
      have hrest := List.length_pos_of_ne_nil (List.splitOn_ne_nil '&' rest)
      omega
    · rintro ⟨rfl, hnot, -⟩
      exact hnot hamp
  · have hpieces : ("ref=".toList ++ value).splitOn '&' = ["ref".toList ++ '=' :: value] :=
      List.splitOn_eq_singleton (by simpa using hamp)
    rw [parameters, hpieces, List.map_singleton, cutFirst_append_cons (by decide), hname]
    simp only [Option.getD_some, List.cons.injEq, Prod.mk.injEq, true_and, and_true]
    rw [unescape?_eq_some_iff h]
    refine and_congr_right fun heq => ?_
    rw [← heq]
    exact (and_iff_right hamp).symm

/-- **A path and a ref are read as they are exactly if they are literal.**  What is read as the path
is a beginning of it, because it ends at the question mark in front of the ref if not before. -/
theorem reads_iff (path ref : Text) :
    let address := path ++ '?' :: ("ref=".toList ++ ref)
    (unescape? (cutFirst '?' (cutFirst '#' address).1).1 = some path ∧
        (cutFirst '?' (cutFirst '#' address).1).2.map parameters
          = some [(some "ref".toList, some ref)]) ↔
      IsLiteral ['#', '?'] path ∧ IsLiteral ['#', '&'] ref := by
  intro address
  have hquestion := not_mem_cutFirst '?' (cutFirst '#' address).1
  have hcut := cutFirst_isPrefix '?' (cutFirst '#' address).1
  have hread := isPrefix_of_isPrefix_append_cons hquestion
    (hcut.trans (cutFirst_isPrefix '#' address))
  rw [unescape?_eq_some_iff hread]
  by_cases hmarks : '#' ∉ path ∧ '?' ∉ path
  · have hfront : '#' ∉ path ++ "?ref=".toList := by simpa using hmarks.1
    have hhash : (cutFirst '#' address).1
        = path ++ '?' :: ("ref=".toList ++ (cutFirst '#' ref).1) := by
      simpa [address] using congrArg Prod.fst (cutFirst_append hfront ref)
    rw [hhash, cutFirst_append_cons hmarks.2, Option.map_some, Option.some.injEq,
      parameters_ref_eq_iff (cutFirst_isPrefix '#' ref), cutFirst_eq_self_iff]
    simp [IsLiteral, hmarks, and_assoc]
  · refine iff_of_false ?_ ?_
    · rintro ⟨⟨hpath, -⟩, -⟩
      have hhash := fun h => not_mem_cutFirst '#' address (hcut.subset h)
      rw [hpath] at hhash hquestion
      exact hmarks ⟨hhash, hquestion⟩
    · rintro ⟨⟨hpath, -⟩, -⟩
      exact hmarks ⟨hpath '#' (by simp), hpath '?' (by simp)⟩

end Address

/-! ## Requests -/

/-- The path is literal exactly if the fields in it are. -/
theorem RemoteFile.isLiteral_contentPath_iff (f : RemoteFile) :
    IsLiteral ['#', '?'] f.contentPath ↔ IsLiteral ['#', '?'] f.owner ∧
      IsLiteral ['#', '?'] f.repo ∧ IsLiteral ['#', '?'] f.path := by
  have hfields : f.contentPath = [] ++ '/' :: ("repos".toList ++ '/' :: (f.owner ++ '/' ::
      (f.repo ++ '/' :: ("contents".toList ++ '/' :: f.path.dropWhile (· == '/'))))) := by
    simp [contentPath]
  have hslash : '/' ∉ ['#', '?'] := by decide
  have hnil : IsLiteral ['#', '?'] [] := by decide
  have hrepos : IsLiteral ['#', '?'] "repos".toList := by decide +kernel
  have hcontents : IsLiteral ['#', '?'] "contents".toList := by decide +kernel
  simp only [hfields, isLiteral_append_slash hslash, isLiteral_dropWhile_slash hslash, hnil, hrepos,
    hcontents, true_and]

namespace ContentRequest

variable {f : RemoteFile}

theorem url_eq (href : Text.trim f.ref ≠ []) : (ofFile f).url
    = "https://api.github.com".toList ++ (f.contentPath ++ '?' :: ("ref=".toList ++ f.ref)) := by
  have hblank : ¬ (Text.trim f.ref).isEmpty = true := mt List.isEmpty_iff.mp href
  simp [ofFile, RemoteFile.contentPath, hblank]

/-- **When a request asks for its file.** -/
theorem asksFor_iff {a : Address} (href : Text.trim f.ref ≠ [])
    (ha : Address.ofText? (ofFile f).url = some a) :
    a.AsksFor f ↔ IsLiteral ['#', '?'] f.owner ∧ IsLiteral ['#', '?'] f.repo ∧
      IsLiteral ['#', '?'] f.path ∧ IsLiteral ['#', '&'] f.ref := by
  have hfields := f.isLiteral_contentPath_iff
  rw [url_eq href, RemoteFile.contentPath, List.cons_append, Address.ofText?_append_slash,
    Option.some.injEq] at ha
  rw [← and_assoc, ← and_assoc, and_assoc (a := IsLiteral _ f.owner), ← hfields, ← ha]
  exact Address.reads_iff f.contentPath f.ref

/-- **The requests that ask for their files.**  A request with a ref always goes to the host.  It
asks for the file, at the ref, exactly if no number sign, question mark and escape stands in the
owner, the repository and the path, and no number sign, ampersand and escape in the ref. -/
theorem asksFor_spec (href : Text.trim f.ref ≠ []) :
    ∃ a, Address.ofText? (ofFile f).url = some a ∧ a.scheme = "https".toList ∧
      a.host = "api.github.com".toList ∧
      (a.AsksFor f ↔ IsLiteral ['#', '?'] f.owner ∧ IsLiteral ['#', '?'] f.repo ∧
        IsLiteral ['#', '?'] f.path ∧ IsLiteral ['#', '&'] f.ref) := by
  have hparts := Address.ofText?_append_slash ("repos/".toList ++ f.owner ++ '/' :: f.repo
    ++ "/contents/".toList ++ f.path.dropWhile (· == '/') ++ '?' :: ("ref=".toList ++ f.ref))
  rw [← List.cons_append, ← RemoteFile.contentPath, ← url_eq href] at hparts
  exact ⟨_, hparts, rfl, rfl, asksFor_iff href hparts⟩

/-- A path may have ampersands, and a ref slashes, question marks and equals signs.  A percent sign
may stand in both if no two hexadecimal digits follow. -/
theorem asksFor_markedFile :
    let f : RemoteFile :=
      ⟨"octo".toList, "tools".toList, "/a&b/100%/action.yml".toList, "fix/12?x=50%".toList⟩
    Text.trim f.ref ≠ [] ∧ ∃ a, Address.ofText? (ofFile f).url = some a ∧ a.AsksFor f := by
  intro f
  have href : Text.trim f.ref ≠ [] := by decide +kernel
  obtain ⟨a, ha, -, -, hiff⟩ := asksFor_spec href
  exact ⟨href, a, ha, hiff.mpr (by decide +kernel)⟩

/-- **A ref with a number sign asks for another ref.**  The rest of it is the fragment of the
address.  An ampersand begins another parameter, an escape is read as its byte, and a path ends at a
question mark. -/
theorem not_asksFor_numberedRef :
    let numbered : RemoteFile :=
      ⟨"o".toList, "r".toList, "action.yml".toList, "fix#12".toList⟩
    Address.ofText? (ofFile numbered).url = some
        { scheme := "https".toList, host := "api.github.com".toList
          path := "/repos/o/r/contents/action.yml".toList
          query := some "ref=fix".toList
          fragment := some "12".toList } ∧
      ∀ f ∈ [numbered, { numbered with ref := "a&b".toList },
          { numbered with ref := "50%25".toList },
          { numbered with path := "a?b/action.yml".toList, ref := "v1".toList }],
        Text.trim f.ref ≠ [] ∧ ∀ a, Address.ofText? (ofFile f).url = some a → ¬ a.AsksFor f := by
  intro numbered
  refine ⟨by decide +kernel, fun f hf => ?_⟩
  have hmarked : ∀ f ∈ [numbered, { numbered with ref := "a&b".toList },
      { numbered with ref := "50%25".toList },
      { numbered with path := "a?b/action.yml".toList, ref := "v1".toList }],
      Text.trim f.ref ≠ [] ∧ ¬ (IsLiteral ['#', '?'] f.owner ∧ IsLiteral ['#', '?'] f.repo ∧
        IsLiteral ['#', '?'] f.path ∧ IsLiteral ['#', '&'] f.ref) := by
    decide +kernel
  obtain ⟨href, hnot⟩ := hmarked f hf
  exact ⟨href, fun a ha => mt (asksFor_iff href ha).mp hnot⟩

end ContentRequest

end WorkflowLens
