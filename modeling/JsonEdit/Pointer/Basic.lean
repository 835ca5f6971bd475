import JsonEdit.Pointer.Step
import JsonEdit.Text.Blank

/-!
# Pointers

A pointer is a list of steps from the root of a document.  It is written with a slash
in front of each step, and read back by `compile`, which gives every text a meaning.
Pointers are compared step by step, so two of them that are written alike can differ:
the name `0` and the index 0 are different steps.
-/

namespace JsonEdit

/-- The steps from the root of a document to a place in it. -/
abbrev Pointer := List Step

namespace Pointer

/-- The text of a pointer. -/
def text (p : Pointer) : List Char := p.flatMap fun step => '/' :: step.text

/-- The text of a pointer. -/
def render (p : Pointer) : String := String.ofList (text p)

/-- The segments of a text.  One slash at the start does not count as a separator. -/
def segments (cs : List Char) : List (List Char) :=
  match cs with
  | '/' :: rest => rest.splitOn '/'
  | cs => cs.splitOn '/'

/-- The pointer that a text stands for.  A text of white space is the root. -/
def compileChars (cs : List Char) : Pointer :=
  if Text.allBlank cs then [] else (segments cs).map Step.classify

/-- The pointer that a text stands for. -/
def compile (s : String) : Pointer := compileChars s.toList

/-- The pointer without its last step; the root has no parent. -/
def parent? (p : Pointer) : Option Pointer := if p.isEmpty then none else some p.dropLast

/-- The pointer with one more step. -/
def child (p : Pointer) (step : Step) : Pointer := p ++ [step]

/-- Whether a pointer is another one or leads on from it. -/
def startsWith (p ancestor : Pointer) : Bool := ancestor.isPrefixOf p

/-- Whether a pointer leads on from another one. -/
def isBelow (p ancestor : Pointer) : Bool :=
  ancestor.length < p.length && startsWith p ancestor

@[simp]
theorem text_nil : text [] = [] := rfl

@[simp]
theorem text_cons (step : Step) (p : Pointer) : text (step :: p) = '/' :: step.text ++ text p := rfl

@[simp]
theorem text_append (p q : Pointer) : text (p ++ q) = text p ++ text q := by
  simp [text]

theorem startsWith_iff {p ancestor : Pointer} :
    startsWith p ancestor = true ↔ ∃ rest, p = ancestor ++ rest := by
  rw [startsWith, List.isPrefixOf_iff_prefix]
  exact ⟨fun ⟨rest, h⟩ => ⟨rest, h.symm⟩, fun ⟨rest, h⟩ => ⟨rest, h.symm⟩⟩

end Pointer

end JsonEdit
