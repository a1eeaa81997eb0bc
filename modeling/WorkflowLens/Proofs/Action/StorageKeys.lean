import WorkflowLens.Action.Basic
import WorkflowLens.Proofs.Action.Segments
import WorkflowLens.Proofs.Text.Occurrences

/-!
# Storage keys

The storage key of an action is the name of a file.  It is put together from the parts of the
reference, with underscores between them.  Only the path is changed on the way: the name of the
definition file is left out, slashes and dots become underscores, and underscores at the ends are
dropped.  The other parts are taken as they are.

So a slash in a key comes from a part that is no path, and which of them have one can be read off
the text.

What a key tells about the reference of a repository are the pieces between its underscores.  Where
one part ends and the next one begins is not written in it, so an underscore in a part is taken for
one between two parts, and of a path only its words are left.  Nothing else gets lost: the pieces
of the key are those of the parts, one part after the other, and two references have the same key
exactly if these are the same.  Parts without underscores are single pieces, which are known by
their places in the key.

* `slash_mem_storageKey_iff`: which keys contain a slash.
* `pathWords`, `RemoteFile.keyWords`: the words of a path, and those of a reference.
* `splitOn_storageKey`: the pieces of a key.
* `storageKey_eq_iff_spec`: which references have the same key.
-/

namespace WorkflowLens

namespace Action

/-! ## The key of a path -/

/-- What becomes of a character of a path. -/
def keyChar (c : Char) : Char := if c == '/' || c == '.' then '_' else c

theorem keyChar_of_ne {c : Char} (h : keyChar c ≠ '_') : keyChar c = c := by
  unfold keyChar at h ⊢
  split
  · next hsep => exact absurd (if_pos hsep) h
  · rfl

theorem keyChar_ne_slash (c : Char) : keyChar c ≠ '/' := by
  unfold keyChar
  split
  · decide
  · next hsep => simp_all

theorem pathKey_eq (path : Text) : pathKey path
    = (((Text.eraseAll definitionFile path).map keyChar).dropWhile (· == '_')).rdropWhile
      (· == '_') := rfl

theorem slash_not_mem_pathKey (path : Text) : '/' ∉ pathKey path := by
  intro h
  rw [pathKey_eq] at h
  have hmem := (List.dropWhile_suffix _).subset ((List.rdropWhile_prefix _ _).subset h)
  obtain ⟨c, -, hc⟩ := List.mem_map.mp hmem
  exact keyChar_ne_slash c hc

theorem slash_not_mem_pathSuffix (path : Text) : '/' ∉ pathSuffix path := by
  unfold pathSuffix
  dsimp only
  split
  · exact List.not_mem_nil
  · rw [List.mem_cons, not_or]
    exact ⟨by decide, slash_not_mem_pathKey path⟩

/-! ## Slashes -/

variable {uses : String} {file : RemoteFile}

theorem storageKey_of_remote (h : Reference.ofUses uses.toList = .remote file) (expiresAt : Nat) :
    (unknown uses expiresAt).storageKey
      = file.owner ++ '_' :: (file.repo ++ (pathSuffix file.path ++ '_' :: file.ref)) := by
  unfold storageKey unknown
  rw [h]
  simp

/-- **Which storage keys contain a slash.**  The key of a file of a repository contains one exactly
if the ref does or a stray slash stands in the text.  That of a file of the project contains none,
and that of an image always does.  The key of a text that names nothing contains the slashes of the
text. -/
theorem slash_mem_storageKey_iff (uses : String) (expiresAt : Nat) :
    '/' ∈ (unknown uses expiresAt).storageKey ↔
      match Reference.ofUses uses.toList with
      | .remote file => '/' ∈ file.ref ∨ Reference.HasStraySlash (Text.trim uses.toList)
      | .project _ => False
      | .docker _ => True
      | .unresolved => '/' ∈ uses.toList := by
  cases h : Reference.ofUses uses.toList with
  | remote file =>
    have hslash : ('/' : Char) ≠ '_' := by decide
    simp only [storageKey_of_remote h, ← Reference.slash_mem_parts_iff h, List.mem_append,
      List.mem_cons, hslash, slash_not_mem_pathSuffix, false_or]
    tauto
  | project path =>
    have hkey : (unknown uses expiresAt).storageKey
        = "local_project".toList ++ pathSuffix path := by
      unfold storageKey unknown
      rw [h]
    rw [hkey, List.mem_append, or_iff_left (slash_not_mem_pathSuffix path)]
    exact iff_of_false (by decide) not_false
  | docker image =>
    have hkey : (unknown uses expiresAt).storageKey = "none_".toList ++ uses.toList := by
      unfold storageKey unknown
      rw [h]
    have hslash : '/' ∈ Text.trim uses.toList := by
      rw [Reference.trim_eq_of_ofUses_eq_docker h]
      exact List.mem_append_left image (by decide)
    rw [hkey, iff_true]
    exact List.mem_append_right _ (Text.mem_of_mem_trim hslash)
  | unresolved =>
    have hkey : (unknown uses expiresAt).storageKey = "none_".toList ++ uses.toList := by
      unfold storageKey unknown
      rw [h]
    rw [hkey, List.mem_append, or_iff_right (by decide)]

/-- **A ref that is the name of a branch, the scheme of an image and a text of no known form bring
their slashes into the key.** -/
theorem slash_mem_storageKey_branch :
    ((unknown "octo/repo/a/b@feature/x" 0).storageKey = "octo_repo_a_b_feature/x".toList ∧
        '/' ∈ (unknown "octo/repo/a/b@feature/x" 0).storageKey) ∧
      '/' ∈ (unknown "docker://alpine:3.18" 0).storageKey ∧
      '/' ∈ (unknown "actions/checkout" 0).storageKey := by
  decide +kernel

/-! ## Words -/

/-- Whether a character of a path becomes an underscore. -/
def isKeySeparator (c : Char) : Bool := keyChar c == '_'

/-- The words of a path: the pieces between slashes, dots and underscores that are left without the
names of definition files, and without the empty ones at both ends. -/
def pathWords (path : Text) : List Text :=
  (((Text.eraseAll definitionFile path).splitOnP isKeySeparator).dropWhile List.isEmpty).rdropWhile
    List.isEmpty

/-- The words of a path are the pieces of its key. -/
theorem pathWords_eq (path : Text) : pathWords path = Text.words '_' (pathKey path) := by
  have hpieces := Text.splitOn_map (fun c => keyChar_of_ne (c := c))
    (Text.eraseAll definitionFile path)
  unfold pathWords
  rw [show isKeySeparator = fun c => keyChar c == '_' from rfl, ← hpieces, Text.dropWhile_splitOn,
    Text.rdropWhile_words, pathKey_eq]

theorem pathWords_inj {path path' : Text} :
    pathWords path = pathWords path' ↔ pathKey path = pathKey path' := by
  rw [pathWords_eq, pathWords_eq, Text.words_inj]

/-- The words of a file's name, part by part. -/
def keyWords (f : RemoteFile) : List Text :=
  f.owner.splitOn '_' ++ (f.repo.splitOn '_' ++ (pathWords f.path ++ f.ref.splitOn '_'))

theorem splitOn_append_pathSuffix (repo path ref : Text) :
    (repo ++ (pathSuffix path ++ '_' :: ref)).splitOn '_'
      = repo.splitOn '_' ++ (pathWords path ++ ref.splitOn '_') := by
  rw [pathWords_eq, pathSuffix, Text.words]
  by_cases hkey : pathKey path = []
  · simp [hkey, List.splitOn_append_cons_self]
  · simp [hkey, List.splitOn_append_cons_self]

/-- **The pieces of a key are the words of the file's name.** -/
theorem splitOn_storageKey (h : Reference.ofUses uses.toList = .remote file) (expiresAt : Nat) :
    (unknown uses expiresAt).storageKey.splitOn '_' = keyWords file := by
  rw [storageKey_of_remote h, List.splitOn_append_cons_self, splitOn_append_pathSuffix]
  rfl

/-! ## Names and paths that are known from their words -/

/-- No underscore stands in the owner, the repository and the ref. -/
structure HasPlainNames (f : RemoteFile) : Prop where
  owner : '_' ∉ f.owner
  repo : '_' ∉ f.repo
  ref : '_' ∉ f.ref

theorem keyWords_of_hasPlainNames (h : HasPlainNames file) :
    keyWords file = file.owner :: file.repo :: (pathWords file.path ++ [file.ref]) := by
  rw [keyWords, List.splitOn_eq_singleton h.owner, List.splitOn_eq_singleton h.repo,
    List.splitOn_eq_singleton h.ref]
  rfl

/-- Names without underscores are known by their places among the words. -/
theorem keyWords_eq_iff_of_hasPlainNames {other : RemoteFile} (h : HasPlainNames file)
    (h' : HasPlainNames other) :
    keyWords file = keyWords other ↔ file.owner = other.owner ∧ file.repo = other.repo ∧
      file.ref = other.ref ∧ pathWords file.path = pathWords other.path := by
  rw [keyWords_of_hasPlainNames h, keyWords_of_hasPlainNames h']
  constructor
  · intro heq
    rw [List.cons.injEq, List.cons.injEq] at heq
    obtain ⟨howner, hrepo, hrest⟩ := heq
    obtain ⟨hpath, href⟩ := List.append_inj' hrest rfl
    exact ⟨howner, hrepo, (List.cons.inj href).1, hpath⟩
  · rintro ⟨howner, hrepo, href, hpath⟩
    rw [howner, hrepo, href, hpath]

/-- The path of the definition file of a repository as a whole, or of a folder in it that is written
without dots, underscores and slashes at its ends. -/
inductive IsPlainPath : Text → Prop
  | repository : IsPlainPath definitionFile
  | folder {dir : Text} (hne : dir ≠ []) (hmem : ∀ c ∈ dir, c ≠ '.' ∧ c ≠ '_')
      (hhead : dir.head? ≠ some '/') (hlast : dir.getLast? ≠ some '/') :
      IsPlainPath (dir ++ '/' :: definitionFile)

/-- The name of the definition file is found only where it was added to a folder without dots. -/
theorem eraseAll_folder {dir : Text} (hdot : '.' ∉ dir) :
    Text.eraseAll definitionFile (dir ++ '/' :: definitionFile) = dir ++ ['/'] := by
  unfold Text.eraseAll
  induction dir with
  | nil => decide
  | cons c dir ih =>
    have hno : Text.startsWith definitionFile (c :: dir ++ '/' :: definitionFile) = false := by
      rw [Text.startsWith_append_cons (by decide), ← Bool.not_eq_true, Text.startsWith_iff]
      exact fun hstands => hdot (hstands.subset (by decide))
    rw [List.cons_append] at hno ⊢
    rw [Text.eraseFrom, hno, if_neg Bool.false_ne_true,
      ih fun hmem => hdot (List.mem_cons_of_mem c hmem), List.cons_append]

theorem keyChar_eq_underscore_iff {c : Char} (h : c ≠ '.' ∧ c ≠ '_') :
    keyChar c = '_' ↔ c = '/' := by
  unfold keyChar
  simp [h.1, h.2]

theorem pathKey_folder {dir : Text} (hmem : ∀ c ∈ dir, c ≠ '.' ∧ c ≠ '_')
    (hhead : dir.head? ≠ some '/') (hlast : dir.getLast? ≠ some '/') :
    pathKey (dir ++ '/' :: definitionFile) = dir.map keyChar := by
  have hkeep : ∀ c ∈ dir, c ≠ '/' → (keyChar c == '_') = false := fun c hc hne =>
    beq_eq_false_iff_ne.mpr fun heq => hne ((keyChar_eq_underscore_iff (hmem c hc)).mp heq)
  have hend : (dir.map keyChar).rdropWhile (· == '_') = dir.map keyChar := by
    refine Text.dropEndWhile_eq_self_iff.mpr fun c hc => ?_
    rw [List.getLast?_map, Option.mem_def, Option.map_eq_some_iff] at hc
    obtain ⟨d, hd, rfl⟩ := hc
    refine hkeep d (List.mem_of_getLast? hd) ?_
    rintro rfl
    exact hlast hd
  have hstart : (dir.map keyChar ++ ['_']).dropWhile (· == '_')
      = if dir = [] then [] else dir.map keyChar ++ ['_'] := by
    cases dir with
    | nil => rfl
    | cons c dir =>
      have hc : c ≠ '/' := fun heq => hhead (congrArg some heq)
      rw [List.map_cons, List.cons_append, List.dropWhile_cons_of_neg,
        if_neg (List.cons_ne_nil c dir)]
      rw [hkeep c List.mem_cons_self hc]
      exact Bool.false_ne_true
  rw [pathKey_eq, eraseAll_folder fun hdot => (hmem '.' hdot).1 rfl, List.map_append,
    show ['/'].map keyChar = ['_'] by decide, hstart]
  split
  · next hnil =>
    rw [hnil]
    rfl
  · rw [List.rdropWhile_concat_pos _ _ _ (by decide), hend]

/-- A folder without dots and underscores is read back from its key. -/
theorem map_map_keyChar {dir : Text} (hmem : ∀ c ∈ dir, c ≠ '.' ∧ c ≠ '_') :
    (dir.map keyChar).map (fun c => if c = '_' then '/' else c) = dir := by
  rw [List.map_map]
  refine (List.map_congr_left fun c hc => ?_).trans (List.map_id dir)
  have hiff := keyChar_eq_underscore_iff (hmem c hc)
  rw [Function.comp_apply]
  split
  · next hsep => exact (hiff.mp hsep).symm
  · next hsep => exact keyChar_of_ne hsep

/-- A plain path is known from its words. -/
theorem IsPlainPath.eq_of_pathWords_eq {path path' : Text} (h : IsPlainPath path)
    (h' : IsPlainPath path') (heq : pathWords path = pathWords path') : path = path' := by
  rw [pathWords_inj] at heq
  have hempty : pathKey definitionFile = [] := by decide
  cases h with
  | repository =>
    cases h' with
    | repository => rfl
    | folder hne hmem hhead hlast =>
      rw [hempty, pathKey_folder hmem hhead hlast, eq_comm, List.map_eq_nil_iff] at heq
      exact absurd heq hne
  | folder hne hmem hhead hlast =>
    cases h' with
    | repository =>
      rw [hempty, pathKey_folder hmem hhead hlast, List.map_eq_nil_iff] at heq
      exact absurd heq hne
    | folder hne' hmem' hhead' hlast' =>
      rw [pathKey_folder hmem hhead hlast, pathKey_folder hmem' hhead' hlast'] at heq
      rw [← map_map_keyChar hmem, ← map_map_keyChar hmem', heq]

/-! ## References with the same key -/

/-- **Which references to repositories have the same storage key.**  Two of them have the same key
exactly if they have the same words.  If no underscores stand in the owners, the repositories and
the refs, these are then the same and so are the words of the paths.  If also the paths are that of
whole repositories or of plain folders, then the references are the same. -/
theorem storageKey_eq_iff_spec {uses uses' : String} {file other : RemoteFile}
    (h : Reference.ofUses uses.toList = .remote file)
    (h' : Reference.ofUses uses'.toList = .remote other) (expiresAt expiresAt' : Nat) :
    ((unknown uses expiresAt).storageKey = (unknown uses' expiresAt').storageKey ↔
      keyWords file = keyWords other) ∧
    (HasPlainNames file → HasPlainNames other →
      ((unknown uses expiresAt).storageKey = (unknown uses' expiresAt').storageKey ↔
        file.owner = other.owner ∧ file.repo = other.repo ∧ file.ref = other.ref ∧
          pathWords file.path = pathWords other.path) ∧
      (IsPlainPath file.path → IsPlainPath other.path →
        ((unknown uses expiresAt).storageKey = (unknown uses' expiresAt').storageKey ↔
          file = other))) := by
  have hkey : (unknown uses expiresAt).storageKey = (unknown uses' expiresAt').storageKey ↔
      keyWords file = keyWords other := by
    rw [← splitOn_storageKey h expiresAt, ← splitOn_storageKey h' expiresAt', Text.splitOn_inj]
  refine ⟨hkey, fun hnames hnames' => ?_⟩
  rw [hkey, keyWords_eq_iff_of_hasPlainNames hnames hnames']
  refine ⟨Iff.rfl, fun hpath hpath' => ⟨?_, ?_⟩⟩
  · rintro ⟨howner, hrepo, href, hwords⟩
    rw [RemoteFile.mk.injEq]
    exact ⟨howner, hrepo, hpath.eq_of_pathWords_eq hpath' hwords, href⟩
  · rintro rfl
    exact ⟨rfl, rfl, rfl, rfl⟩

/-- Two folders of one repository, one inside of the other. -/
theorem storageKey_ne_innerFolder :
    Reference.ofUses "org/repo/tools@v1".toList
        = .remote ⟨"org".toList, "repo".toList, "tools/action.yml".toList, "v1".toList⟩ ∧
      Reference.ofUses "org/repo/tools/lint@v1".toList
        = .remote ⟨"org".toList, "repo".toList, "tools/lint/action.yml".toList, "v1".toList⟩ ∧
      (unknown "org/repo/tools@v1" 0).storageKey
        ≠ (unknown "org/repo/tools/lint@v1" 0).storageKey := by
  have houter : Reference.ofUses "org/repo/tools@v1".toList
      = .remote ⟨"org".toList, "repo".toList, "tools/action.yml".toList, "v1".toList⟩ := by
    decide +kernel
  have hinner : Reference.ofUses "org/repo/tools/lint@v1".toList
      = .remote ⟨"org".toList, "repo".toList, "tools/lint/action.yml".toList, "v1".toList⟩ := by
    decide +kernel
  have hplain : IsPlainPath "tools/action.yml".toList :=
    @IsPlainPath.folder "tools".toList (by decide) (by simp) (by decide) (by decide)
  have hplain' : IsPlainPath "tools/lint/action.yml".toList :=
    @IsPlainPath.folder "tools/lint".toList (by decide) (by simp) (by decide) (by decide)
  refine ⟨houter, hinner, fun heq => ?_⟩
  have hsame := (((storageKey_eq_iff_spec houter hinner 0 0).2 ⟨by decide, by decide, by decide⟩
    ⟨by decide, by decide, by decide⟩).2 hplain hplain').mp heq
  exact absurd hsame (by decide)

/-- **A folder at a version and the whole repository at a branch named after both have the same
key.**  So have a folder in a folder and a folder with an underscore in its name. -/
theorem storageKey_collisions :
    (Reference.ofUses "org/repo/tools@v1".toList
        = .remote ⟨"org".toList, "repo".toList, "tools/action.yml".toList, "v1".toList⟩ ∧
      Reference.ofUses "org/repo@tools_v1".toList
        = .remote ⟨"org".toList, "repo".toList, "action.yml".toList, "tools_v1".toList⟩ ∧
      (unknown "org/repo/tools@v1" 0).storageKey = (unknown "org/repo@tools_v1" 0).storageKey) ∧
    Reference.ofUses "org/repo/tools/lint@v1".toList
        = .remote ⟨"org".toList, "repo".toList, "tools/lint/action.yml".toList, "v1".toList⟩ ∧
      Reference.ofUses "org/repo/tools_lint@v1".toList
        = .remote ⟨"org".toList, "repo".toList, "tools_lint/action.yml".toList, "v1".toList⟩ ∧
      (unknown "org/repo/tools/lint@v1" 0).storageKey
        = (unknown "org/repo/tools_lint@v1" 0).storageKey := by
  decide +kernel

end Action

end WorkflowLens
