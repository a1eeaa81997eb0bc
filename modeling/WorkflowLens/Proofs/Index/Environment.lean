import WorkflowLens.Proofs.Index.Collect
import WorkflowLens.Proofs.Index.Scopes
import WorkflowLens.Proofs.Tree.Names

/-!
# Environment variables

A variable can be declared for a whole workflow, for a job or for a step, and it must not be
offered anywhere else.  The collection visits every mapping `env` at any depth, those of services
and containers or a job called `env` among them, and leaves it to the scope which of them count.
The scope decides by locations alone, which two decodings of a document share: the owner of the
mapping must be the root, a job or a step, and the location of the place must begin with that of
the owner.

* `Tree.DeclaresEnv`: a node has a mapping `env` with a name in it.
* `Index.mem_names_envs_iff`: which variables count at a node.
-/

namespace WorkflowLens

/-- The node `owner` has a mapping `env` with an entry `name`. -/
def Tree.DeclaresEnv (t : Tree) (owner : Nat) (name : String) : Prop :=
  ∃ env var, t.parent? env = some owner ∧ t.name? env = some "env" ∧ t.shape env = .mapping ∧
    t.parent? var = some env ∧ t.name? var = some name

namespace Index

theorem mem_names_envs_iff_sees {ix : Index} {t : Tree} {text : Text} (h : t.IsLocated text)
    (htree : ix.tree = some t) {s : Scope} {name : String} :
    name ∈ (ix.envs s).names ↔ ∃ owner, t.DeclaresEnv owner name ∧ s.sees t owner = true := by
  have hcollect : ix.envs s
      = t.collect "env" (fun n => ((t.parent? n).bind t.parent?).any (s.sees t)) t.name?
        fun n => (t.value? n).getD "" := by
    rw [envs, Index.collect, dictionary, htree]
    rfl
  rw [hcollect, h.isPreorder.mem_names_collect_iff]
  constructor
  · rintro ⟨env, var, henv, hvar, hsees, hname⟩
    rw [hvar, Option.bind_some, Option.any_eq_true] at hsees
    obtain ⟨owner, howner, hsees⟩ := hsees
    exact ⟨owner, ⟨env, var, howner, henv, h.shape_parent_of_name hname hvar, hvar, hname⟩, hsees⟩
  · rintro ⟨owner, ⟨env, var, howner, henv, -, hvar, hname⟩, hsees⟩
    refine ⟨env, var, henv, hvar, ?_, hname⟩
    rw [hvar, Option.bind_some, howner]
    exact hsees

/-- **Environment variables do not leak.**  At a node of one tree exactly those of another tree
count that are declared by its root, or by a job or a step whose location the location of the node
begins with. -/
theorem mem_names_envs_iff {ix : Index} {A B : Tree} {s u : Text} (hA : A.IsLocated s)
    (hB : B.IsLocated u) (htree : ix.tree = some B) {n : Nat} (hn : n < A.size) {name : String} :
    name ∈ (ix.envs (Scope.ofNode A n)).names ↔
      ∃ owner, B.DeclaresEnv owner name ∧ IsScopePath (B.location owner) ∧
        B.location owner <+: A.location n := by
  rw [mem_names_envs_iff_sees hB htree]
  refine exists_congr fun owner => and_congr_right ?_
  rintro ⟨env, -, howner, -⟩
  exact Scope.sees_ofNode_iff hA.isPreorder hB.isPreorder hn (hB.isPreorder.parent_lt_size howner)

/-- A document with one job, which is still empty. -/
def oneJobText : Text := "jobs: \x7ba: \x7b\x7d\x7d".toList

/-- A document with two jobs, each of which declares a variable. -/
def twoJobsText : Text :=
  "jobs: \x7ba: \x7benv: \x7bX: p\x7d\x7d, b: \x7benv: \x7bY: q\x7d\x7d\x7d".toList

/-- The tree of `oneJobText`. -/
def oneJob : Tree :=
  ⟨#[⟨none, none, .mapping, none, [1], 0, 3, Span.upTo 0 13⟩,
    ⟨some "jobs", none, .mapping, some 0, [2], 0, 3, Span.upTo 0 13⟩,
    ⟨some "a", none, .mapping, some 1, [], 0, 3, Span.upTo 7 13⟩]⟩

/-- The tree of `twoJobsText`. -/
def twoJobs : Tree :=
  ⟨#[⟨none, none, .mapping, none, [1], 0, 8, Span.upTo 0 42⟩,
    ⟨some "jobs", none, .mapping, some 0, [2, 5], 0, 8, Span.upTo 0 42⟩,
    ⟨some "a", none, .mapping, some 1, [3], 0, 5, Span.upTo 7 25⟩,
    ⟨some "env", none, .mapping, some 2, [4], 0, 5, Span.upTo 11 25⟩,
    ⟨some "X", some "p", .scalar, some 3, [], 0, 5, Span.upTo 17 25⟩,
    ⟨some "b", none, .mapping, some 1, [6], 1, 8, Span.upTo 25 42⟩,
    ⟨some "env", none, .mapping, some 5, [7], 0, 8, Span.upTo 29 42⟩,
    ⟨some "Y", some "q", .scalar, some 6, [], 0, 8, Span.upTo 35 42⟩]⟩

/-- In the first job counts what it declares, and not what the second one declares. -/
theorem names_envs_twoJobs :
    let ix : Index := ⟨some twoJobs, .workflow, 0⟩
    oneJob.IsLocated oneJobText ∧
      twoJobs.IsLocated twoJobsText ∧ ix.tree = some twoJobs ∧ 2 < oneJob.size ∧
      "X" ∈ (ix.envs (Scope.ofNode oneJob 2)).names ∧
      "Y" ∉ (ix.envs (Scope.ofNode oneJob 2)).names := by
  intro ix
  have hA : oneJob.IsLocated oneJobText :=
    ⟨.mapping [(.string "jobs", .mapping [(.string "a", .mapping [])])], _, rfl, rfl⟩
  have hB : twoJobs.IsLocated twoJobsText :=
    ⟨.mapping [(.string "jobs", .mapping
      [(.string "a", .mapping [(.string "env", .mapping [(.string "X", .string "p")])]),
       (.string "b", .mapping [(.string "env", .mapping [(.string "Y", .string "q")])])])],
      _, rfl, rfl⟩
  have hX : "X" ∈ (ix.envs (Scope.ofNode oneJob 2)).names :=
    (mem_names_envs_iff hA hB rfl (by decide)).mpr
      ⟨2, ⟨3, 4, rfl, rfl, rfl, rfl, rfl⟩, .inr (.inl ⟨"a", rfl⟩), List.prefix_refl _⟩
  exact ⟨hA, hB, rfl, by decide, hX, by decide⟩

end Index

end WorkflowLens
