import ApiTree.Selection.Update

/-!
# ApiTree.Selection.Annotation

Annotating operations of a document: tags and responses.  A tag that is given
to operations is declared for the document too, unless its name is declared
already.
-/

namespace ApiTree

/-- A tag that is asked for, in full or by its name alone. -/
inductive AskedTag where
  | full (tag : Tag)
  | named (name : String)
deriving DecidableEq, Repr

/-- The tag itself. -/
def AskedTag.tag : AskedTag → Tag
  | .full tag => tag
  | .named name => { name }

namespace Document

/-- Every operation with its key, in the order of paths and methods. -/
def allOperations (d : Document) : List (OperationKey × Operation) :=
  d.paths.flatMap fun (path, item) =>
    item.operations.map fun (m, op) => (⟨path, m.name⟩, op)

/-- The keys of all operations. -/
def allKeys (d : Document) : List OperationKey := d.allOperations.map (·.1)

/-- Declares the tags whose names are not declared yet. -/
def declareTags (d : Document) (tags : List Tag) : Document :=
  { d with tags := d.tags ++ tags.filter fun t => !(d.tags.map (·.name)).contains t.name }

variable [PathItem.Base]

/-- Tags the selected operations and declares the tags. -/
def applyTagsFor (d : Document) (selection : List OperationKey) (asked : List AskedTag) :
    Except Fault Document := do
  let tags := asked.map (·.tag)
  let names := tags.map (·.name)
  let tagged ← d.applyOver selection fun op =>
    { op with tags := op.tags ++ names.filter (!op.tags.contains ·) }
  return tagged.declareTags tags

/-- Tags every operation. -/
def applyTags (d : Document) (asked : List AskedTag) : Except Fault Document :=
  d.applyTagsFor d.allKeys asked

/-- Sets the response for a status on the selected operations. -/
def setResponseFor (d : Document) (selection : List OperationKey) (status : String)
    (response : Response) : Except Fault Document :=
  d.applyOver selection fun op =>
    { op with responses := op.responses.put status response }

/-- Sets the response for a status on every operation. -/
def setResponse (d : Document) (status : String) (response : Response) : Except Fault Document :=
  d.setResponseFor d.allKeys status response

/-- What the selection leads to, in its order. -/
def selected (d : Document) (selection : List OperationKey) :
    Except Fault (List PathItem.Member) :=
  selection.mapM fun k => d.operation k.path k.method

end Document
end ApiTree
