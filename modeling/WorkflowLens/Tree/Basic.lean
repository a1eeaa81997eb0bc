import WorkflowLens.Span
import WorkflowLens.Tree.Outline

/-!
# Trees

A tree lists the nodes of an outline in pre-order, so a node's number is its place in the list
and its descendants come right after it.  The list is redundant: each node knows its parent, its
children, its place among its siblings, and the number at which its descendants end, so that
every step of navigation is a look-up.

* `Tree.ofOutline`: the tree of an outline, still without spans.
* `Tree.ancestors`, `Tree.path`, `Tree.contains`, `Tree.nodesWhere`, `Tree.nodeAt`: navigation.

Nodes are named by their numbers.  A number outside the tree stands for a node without name,
value, parent or children.
-/

namespace WorkflowLens

/-- What a node holds. -/
inductive Shape where
  | scalar | mapping | sequence
  deriving DecidableEq, Repr

/-- The shape of a collection. -/
def Collection.shape : Collection → Shape
  | .mapping => .mapping
  | .sequence => .sequence

/-- A node of a tree. -/
structure Node where
  /-- The key of a mapping entry. -/
  name : Option String
  /-- The text of a scalar. -/
  value : Option String
  shape : Shape
  parent : Option Nat
  children : List Nat
  /-- The place among the siblings. -/
  index : Nat
  /-- The number after that of the last descendant. -/
  stop : Nat
  /-- Where the node stands in the text. -/
  span : Span
  deriving DecidableEq, Repr

/-- The node that a number outside a tree stands for. -/
def Node.absent : Node := ⟨none, none, .scalar, none, [], 0, 0, .zero⟩

/-- The nodes of a document in pre-order. -/
structure Tree where
  nodes : Array Node
  deriving DecidableEq, Repr

/-! ## Building -/

namespace Outline

/-- The numbers of children of which the first has number `first`. -/
def childNumbers : (first : Nat) → List (Option String × Outline) → List Nat
  | _, [] => []
  | first, (_, o) :: children => first :: childNumbers (first + o.size) children

mutual

/-- The nodes of an outline that has the given number, parent, name and place. -/
def nodes : (number : Nat) → (parent : Option Nat) → (name : Option String) → (index : Nat) →
    Outline → List Node
  | number, parent, name, index, .scalar text =>
    [⟨name, text, .scalar, parent, [], index, number + 1, .zero⟩]
  | number, parent, name, index, .collection kind children =>
    ⟨name, none, kind.shape, parent, childNumbers (number + 1) children, index,
      number + 1 + sizeOfChildren children, .zero⟩
      :: childNodes (number + 1) number 0 children

/-- The nodes of children of which the first has the given number and place. -/
def childNodes : (number parent index : Nat) → List (Option String × Outline) → List Node
  | _, _, _, [] => []
  | number, parent, index, (name, o) :: children =>
    nodes number (some parent) name index o
      ++ childNodes (number + o.size) parent (index + 1) children

end

end Outline

namespace Tree

/-- The tree of an outline. -/
def ofOutline (o : Outline) : Tree :=
  ⟨(o.nodes 0 none none 0).toArray⟩

/-- The number of nodes. -/
def size (t : Tree) : Nat := t.nodes.size

/-- The node with a number. -/
def node (t : Tree) (n : Nat) : Node := t.nodes[n]?.getD Node.absent

/-- The key of a node. -/
def name? (t : Tree) (n : Nat) : Option String := (t.node n).name

/-- The text of a scalar node. -/
def value? (t : Tree) (n : Nat) : Option String := (t.node n).value

/-- The shape of a node. -/
def shape (t : Tree) (n : Nat) : Shape := (t.node n).shape

/-- The parent of a node. -/
def parent? (t : Tree) (n : Nat) : Option Nat := (t.node n).parent

/-- The children of a node. -/
def children (t : Tree) (n : Nat) : List Nat := (t.node n).children

/-- The place of a node among its siblings. -/
def index (t : Tree) (n : Nat) : Nat := (t.node n).index

/-- The number after that of the last descendant. -/
def stop (t : Tree) (n : Nat) : Nat := (t.node n).stop

/-- Where a node stands in the text. -/
def span (t : Tree) (n : Nat) : Span := (t.node n).span

/-- The number of the root. -/
def root : Nat := 0

/-- Whether a node is the root. -/
def isRoot (n : Nat) : Bool := n == root

/-! ## Navigation -/

/-- Whether a node has the given key. -/
def hasName (t : Tree) (name : String) (n : Nat) : Bool := t.name? n == some name

/-- Whether the parent of a node has the given key. -/
def hasParent (t : Tree) (name : String) (n : Nat) : Bool :=
  (t.parent? n).any fun p => t.hasName name p

/-- The first child with the given key. -/
def child? (t : Tree) (n : Nat) (name : String) : Option Nat :=
  (t.children n).find? fun c => t.hasName name c

/-- The child at a place. -/
def childAt? (t : Tree) (n i : Nat) : Option Nat := (t.children n)[i]?

/-- The text of the first child with the given key. -/
def childValue? (t : Tree) (n : Nat) (name : String) : Option String :=
  (t.child? n name).bind t.value?

/-- The first `count` nodes on the way from a node to the root. -/
def climb (t : Tree) : (count : Nat) → Nat → List Nat
  | 0, _ => []
  | count + 1, n =>
    n :: match t.parent? n with
      | some p => climb t count p
      | none => []

/-- A node and its ancestors, up to the root.  A parent has a smaller number than its children,
so `n + 1` nodes are enough. -/
def ancestorsOrSelf (t : Tree) (n : Nat) : List Nat := t.climb (n + 1) n

/-- The ancestors of a node, the parent first. -/
def ancestors (t : Tree) (n : Nat) : List Nat := (t.ancestorsOrSelf n).drop 1

/-- Whether `m` is `n` or one of its descendants. -/
def contains (t : Tree) (n m : Nat) : Bool := n ≤ m && m < t.stop n

/-- The keys on the way from the root to a node; an item of a sequence has none. -/
def path (t : Tree) (n : Nat) : List (Option String) :=
  ((t.ancestorsOrSelf n).filter fun a => !isRoot a).reverse.map t.name?

/-- A node and its descendants in pre-order, as far as they satisfy `p`. -/
def nodesWhere (t : Tree) (n : Nat) (p : Nat → Bool) : List Nat :=
  (List.range' n (t.stop n - n)).filter p

/-- The last node in pre-order that starts at or before an offset. -/
def nodeAt (t : Tree) (offset : Nat) : Nat :=
  ((List.range t.size).reverse.find? fun n => (t.span n).start ≤ offset).getD root

/-! ## Locations -/

/-- One step of the way from the root to a node. -/
inductive Step where
  | key (name : String)
  | item (index : Nat)
  deriving DecidableEq, Repr

/-- The last step on the way to a node. -/
def step (t : Tree) (n : Nat) : Step :=
  match t.name? n with
  | some name => .key name
  | none => .item (t.index n)

/-- The way from the root to a node. -/
def location (t : Tree) (n : Nat) : List Step :=
  ((t.ancestorsOrSelf n).filter fun a => !isRoot a).reverse.map t.step

end Tree

end WorkflowLens
