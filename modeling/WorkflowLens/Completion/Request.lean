import WorkflowLens.Expression.Path
import WorkflowLens.Index.Declarations

/-!
# Requests

A request is a document and a caret in it, for which an editor wants to know something.  What
stands after the caret's line is often unfinished or belongs to another thought, so two indexes
are made: that of the text up to the end of the caret's line says where the caret is, and that of
the whole text says what is declared.

* `Request.ofText`: the request for a caret of a text.
* `Request.make`: the request as it is kept, with offsets in 32 bits.
-/

namespace WorkflowLens

/-- A document with a caret. -/
structure Request where
  text : Text
  caret : Nat
  /-- The path at the caret, if it is in an open expression. -/
  path? : Option Expression.Path
  /-- The index of the text up to the end of the caret's line. -/
  upToCaret : Index
  /-- The index of the whole text, or if that does not decode, of the text up to the caret. -/
  whole : Index

namespace Request

/-- The request for a caret of a text; a caret past the end stands for the end. -/
def ofText (text : Text) (kind : DocumentKind) (caret : Nat) : Except CutFault Request := do
  let caret := min caret text.byteSize
  let upToCaret ← Index.ofTextUpToCaret text kind caret
  let whole ← Index.ofText text kind caret
  let path? ← Expression.Path.atCaret? text caret
  return ⟨text, caret, path?, upToCaret, if whole.isDecoded then whole else upToCaret⟩

/-- The request as it is kept. -/
def pack (r : Request) : Except Fault Request := do
  return { r with upToCaret := ← r.upToCaret.pack, whole := ← r.whole.pack }

/-- The request for a caret of a text as it is kept.  Every offset of the text must be one that can
be kept. -/
def make (text : Text) (kind : DocumentKind) (caret : Nat) : Except Fault Request := do
  if Offset.bound ≤ text.byteSize then throw (.long text.byteSize)
  let r ← (ofText text kind caret).mapError .cut
  r.pack

/-- What the document defines. -/
def kind (r : Request) : DocumentKind := r.upToCaret.kind

/-- The place of the caret. -/
def scope (r : Request) : Scope := r.upToCaret.currentScope

end Request

end WorkflowLens
