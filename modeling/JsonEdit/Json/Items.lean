/-!
# Items of an array

The four changes of one item.  Each says whether its index is in range: an item can
be inserted in front of every item and at the end, and replaced or removed where
there is one.
-/

namespace JsonEdit.Items

variable {α : Type}

/-- Inserts an item so that it has this index, which is at most the length. -/
def insert? (items : List α) (index : Nat) (value : α) : Option (List α) :=
  if index ≤ items.length then some (items.insertIdx index value) else none

/-- Replaces the item with this index, if there is one. -/
def replace? (items : List α) (index : Nat) (value : α) : Option (List α) :=
  if index < items.length then some (items.set index value) else none

/-- Removes the item with this index, if there is one. -/
def remove? (items : List α) (index : Nat) : Option (List α) :=
  if index < items.length then some (items.eraseIdx index) else none

/-- Adds an item at the end. -/
def append (items : List α) (value : α) : List α := items ++ [value]

end JsonEdit.Items
