import JsonEdit.Json.Basic
import Mathlib.Algebra.Group.Int.Defs

/-!
# The shape of a value

What can be said of a value without its scalars: the names and the number of its parts,
and how deep its containers are nested.  `Everywhere` extends a property of one value to
all that is inside it, and `DistinctNames` is the property of every value that was built
by the operations on members: no object holds a name twice.  Both properties of this kind
can be decided.

The type of values cannot ask for distinct names itself: a value is defined together with the
lists of its parts, and no constructor can speak of what is inside of them.  `Document` puts a
value and the proof together.
-/

namespace JsonEdit

/-- An integer that 64 bits hold, with or without a sign. -/
def Number.IsInteger64 (n : Number) : Prop := ∃ i : Int, n = .int i ∧ -2 ^ 63 ≤ i ∧ i < 2 ^ 64

instance (n : Number) : Decidable n.IsInteger64 :=
  match n with
  | .int i =>
    decidable_of_iff (-2 ^ 63 ≤ i ∧ i < 2 ^ 64)
      ⟨fun h => ⟨i, rfl, h⟩, fun ⟨_, hi, h⟩ => Number.int.inj hi ▸ h⟩
  | .double _ => isFalse fun ⟨_, hi, _⟩ => nomatch hi

namespace Json

/-- The names of the members of an object, in order; other values have none. -/
def names : Json → List String
  | object members => Members.keys members
  | _ => []

/-- The number of items or members. -/
def size : Json → Nat
  | array items => items.length
  | object members => members.length
  | _ => 0

mutual

/-- The greatest number of containers, one inside the other. -/
def depth : Json → Nat
  | array items => depthItems items + 1
  | object members => depthMembers members + 1
  | _ => 0

/-- The greatest depth of an item. -/
def depthItems : List Json → Nat
  | [] => 0
  | x :: xs => max (depth x) (depthItems xs)

/-- The greatest depth of the value of a member. -/
def depthMembers : List (String × Json) → Nat
  | [] => 0
  | (_, x) :: ms => max (depth x) (depthMembers ms)

end

mutual

/-- Whether something holds of a value and of everything inside it. -/
def Everywhere (holds : Json → Prop) : Json → Prop
  | array items => holds (array items) ∧ EverywhereItems holds items
  | object members => holds (object members) ∧ EverywhereMembers holds members
  | node => holds node

/-- Whether something holds everywhere in each item. -/
def EverywhereItems (holds : Json → Prop) : List Json → Prop
  | [] => True
  | x :: xs => Everywhere holds x ∧ EverywhereItems holds xs

/-- Whether something holds everywhere in the value of each member. -/
def EverywhereMembers (holds : Json → Prop) : List (String × Json) → Prop
  | [] => True
  | (_, x) :: ms => Everywhere holds x ∧ EverywhereMembers holds ms

end

/-- No object has a name twice. -/
def DistinctNames (x : Json) : Prop := Everywhere (fun node => node.names.Nodup) x

/-- A value that carries the proof that no object in it has a name twice. -/
abbrev Document := {x : Json // x.DistinctNames}

/-- Every number is an integer that 64 bits hold. -/
def Integers64 (x : Json) : Prop :=
  Everywhere (fun node => ∀ n, node = number n → n.IsInteger64) x

mutual

/-- What follows from a property that holds everywhere holds everywhere. -/
theorem Everywhere.imp {P Q : Json → Prop} (hstep : ∀ x, P x → Q x) :
    ∀ x, Everywhere P x → Everywhere Q x
  | null, h | bool _, h | number _, h | string _, h => hstep _ h
  | array items, h => ⟨hstep _ h.1, everywhereItems_imp hstep items h.2⟩
  | object members, h => ⟨hstep _ h.1, everywhereMembers_imp hstep members h.2⟩

theorem everywhereItems_imp {P Q : Json → Prop} (hstep : ∀ x, P x → Q x) :
    ∀ xs, EverywhereItems P xs → EverywhereItems Q xs
  | [], _ => trivial
  | x :: xs, h => ⟨Everywhere.imp hstep x h.1, everywhereItems_imp hstep xs h.2⟩

theorem everywhereMembers_imp {P Q : Json → Prop} (hstep : ∀ x, P x → Q x) :
    ∀ ms, EverywhereMembers P ms → EverywhereMembers Q ms
  | [], _ => trivial
  | (_, x) :: ms, h => ⟨Everywhere.imp hstep x h.1, everywhereMembers_imp hstep ms h.2⟩

end

theorem everywhereItems_iff {P : Json → Prop} {xs : List Json} :
    EverywhereItems P xs ↔ ∀ x ∈ xs, Everywhere P x := by
  induction xs with
  | nil => simp [EverywhereItems]
  | cons x xs ih => simp [EverywhereItems, ih]

theorem everywhereMembers_iff {P : Json → Prop} {ms : Members Json} :
    EverywhereMembers P ms ↔ ∀ name x, (name, x) ∈ ms → Everywhere P x := by
  induction ms with
  | nil => simp [EverywhereMembers]
  | cons entry ms ih =>
    obtain ⟨key, x⟩ := entry
    rw [EverywhereMembers, ih]
    constructor
    · rintro ⟨hx, hrest⟩ name y hmem
      obtain ⟨-, rfl⟩ | hmem := by simpa using hmem
      · exact hx
      · exact hrest name y hmem
    · exact fun h => ⟨h key x (by simp), fun name y hmem => h name y (by simp [hmem])⟩

theorem distinctNames_array_iff {items : List Json} :
    (array items).DistinctNames ↔ ∀ x ∈ items, x.DistinctNames := by
  rw [DistinctNames, Everywhere, everywhereItems_iff]
  simp [names, DistinctNames]

theorem distinctNames_object_iff {members : List (String × Json)} :
    (object members).DistinctNames ↔
      (Members.keys members).Nodup ∧ ∀ name x, (name, x) ∈ members → x.DistinctNames := by
  rw [DistinctNames, Everywhere, everywhereMembers_iff]
  rfl

/-! ## Induction on the parts of a value -/

/-- What holds of every scalar, and of a container if it holds of its parts, holds of every
value. -/
@[elab_as_elim]
theorem induction_parts {P : Json → Prop} (scalar : ∀ x, x.isScalar = true → P x)
    (array : ∀ items, (∀ x ∈ items, P x) → P (array items))
    (object : ∀ members, (∀ name x, (name, x) ∈ members → P x) → P (object members))
    (x : Json) : P x := by
  cases x with
  | array items => exact array items fun x _ => induction_parts scalar array object x
  | object members =>
    refine object members fun name x hmem => ?_
    have hsize : sizeOf x < sizeOf members := by
      have := List.sizeOf_lt_of_mem hmem
      rw [Prod.mk.sizeOf_spec] at this
      omega
    exact induction_parts scalar array object x
  | null | bool b | number n | string s => exact scalar _ rfl

/-- What holds everywhere holds together. -/
theorem Everywhere.and {P Q : Json → Prop} {x : Json} (hp : Everywhere P x)
    (hq : Everywhere Q x) : Everywhere (fun node => P node ∧ Q node) x := by
  induction x using induction_parts with
  | scalar x hscalar =>
    cases x with
    | array items | object members => simp [isScalar] at hscalar
    | _ => exact ⟨hp, hq⟩
  | array items ih =>
    refine ⟨⟨hp.1, hq.1⟩, everywhereItems_iff.mpr ?_⟩
    intro x hx
    exact ih x hx (everywhereItems_iff.mp hp.2 x hx) (everywhereItems_iff.mp hq.2 x hx)
  | object members ih =>
    refine ⟨⟨hp.1, hq.1⟩, everywhereMembers_iff.mpr ?_⟩
    intro name x hx
    exact ih name x hx (everywhereMembers_iff.mp hp.2 name x hx)
      (everywhereMembers_iff.mp hq.2 name x hx)

/-! ## Decisions -/

mutual

instance decidableEverywhere {holds : Json → Prop} [DecidablePred holds] :
    (x : Json) → Decidable (Everywhere holds x)
  | null => inferInstanceAs (Decidable (holds null))
  | bool b => inferInstanceAs (Decidable (holds (bool b)))
  | number n => inferInstanceAs (Decidable (holds (number n)))
  | string s => inferInstanceAs (Decidable (holds (string s)))
  | array items =>
    have : Decidable (EverywhereItems holds items) := decidableEverywhereItems items
    inferInstanceAs (Decidable (holds (array items) ∧ EverywhereItems holds items))
  | object members =>
    have : Decidable (EverywhereMembers holds members) := decidableEverywhereMembers members
    inferInstanceAs (Decidable (holds (object members) ∧ EverywhereMembers holds members))

instance decidableEverywhereItems {holds : Json → Prop} [DecidablePred holds] :
    (xs : List Json) → Decidable (EverywhereItems holds xs)
  | [] => inferInstanceAs (Decidable True)
  | x :: xs =>
    have : Decidable (Everywhere holds x) := decidableEverywhere x
    have : Decidable (EverywhereItems holds xs) := decidableEverywhereItems xs
    inferInstanceAs (Decidable (Everywhere holds x ∧ EverywhereItems holds xs))

instance decidableEverywhereMembers {holds : Json → Prop} [DecidablePred holds] :
    (ms : List (String × Json)) → Decidable (EverywhereMembers holds ms)
  | [] => inferInstanceAs (Decidable True)
  | (_, x) :: ms =>
    have : Decidable (Everywhere holds x) := decidableEverywhere x
    have : Decidable (EverywhereMembers holds ms) := decidableEverywhereMembers ms
    inferInstanceAs (Decidable (Everywhere holds x ∧ EverywhereMembers holds ms))

end

instance (x : Json) : Decidable x.DistinctNames :=
  inferInstanceAs (Decidable (Everywhere (fun node => node.names.Nodup) x))

instance (x : Json) : Decidable (∀ n, x = number n → n.IsInteger64) :=
  match x with
  | number n => decidable_of_iff n.IsInteger64 ⟨fun h _ hn => number.inj hn ▸ h, fun h => h n rfl⟩
  | null | bool _ | string _ | array _ | object _ => isTrue nofun

instance (x : Json) : Decidable x.Integers64 :=
  inferInstanceAs (Decidable (Everywhere (fun node => ∀ n, node = number n → n.IsInteger64) x))

end Json

end JsonEdit
