import JsonEdit.Patch.Error
import JsonEdit.Patch.Op
import JsonEdit.Pointer.Edit

/-!
# Running a patch

Operations run one after the other, each on the document that the one before it left.
The first error ends the run.  A run can keep a history of what every operation did.
-/

namespace JsonEdit

/-- What an operation did. -/
structure Outcome where
  /-- The document after the operation. -/
  doc : Json
  /-- What was at the path of the operation before it. -/
  old : Option Json
deriving DecidableEq

namespace Op

/-- The document after an operation. -/
def effect (op : Op) (doc : Json) : Except Patch.Error Json :=
  match op with
  | add path value => (doc.add path value).mapError .pointer
  | remove path => (doc.remove path).mapError .pointer
  | replace path value => (doc.replace path value).mapError .pointer
  | copy path source => (doc.copy source path).mapError .pointer
  | move path source => (doc.move source path).mapError .pointer
  | test path value => if doc.test path value then .ok doc else .error (.testFailed path)

/-- Applies an operation to a document. -/
def apply (op : Op) (doc : Json) : Except Patch.Error Outcome :=
  (op.effect doc).map fun result => ⟨result, doc.select op.path⟩

end Op

namespace Patch

/-- What a run left. -/
structure Result where
  /-- The document after the last operation. -/
  doc : Json
  /-- What each operation did, if that was to be kept. -/
  history : List Outcome
deriving DecidableEq

/-- Runs operations on a document, with or without a history. -/
def run (keepHistory : Bool) : Json → List Op → Except Error Result
  | doc, [] => .ok ⟨doc, []⟩
  | doc, op :: ops =>
    match op.apply doc with
    | .error e => .error e
    | .ok outcome =>
      (run keepHistory outcome.doc ops).map fun result =>
        ⟨result.doc, if keepHistory then outcome :: result.history else result.history⟩

/-- The document after a list of operations. -/
def applyAll (doc : Json) (ops : List Op) : Except Error Json :=
  (run false doc ops).map Result.doc

end Patch

end JsonEdit
