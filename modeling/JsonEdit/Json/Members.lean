/-!
# Members of an object

The members of an object are a list of names and values.  The list order is the
order in which the names first came in, and it can be seen: a new name goes to the
end, a name that is already there keeps its place and takes the new value, and a
name that leaves closes the gap.  An object read from text has each name once.
The operations below keep that, and they are defined on every list.

They restate the documented behaviour of an insertion-ordered map that is not part of
this library: a put that keeps the place of a name, and a removal that keeps the order
of the rest.  That the map behaves so is an assumption of the development.
-/

namespace JsonEdit

/-- Names and values, in order. -/
abbrev Members (α : Type) := List (String × α)

namespace Members

variable {α : Type}

/-- The value of the first member with this name. -/
def get? : Members α → String → Option α
  | [], _ => none
  | (key, value) :: rest, name => if key = name then some value else get? rest name

/-- Whether there is a member with this name. -/
def contains (members : Members α) (name : String) : Bool := (get? members name).isSome

/-- Gives the member with this name a value; a new member goes to the end. -/
def put : Members α → String → α → Members α
  | [], name, value => [(name, value)]
  | (key, old) :: rest, name, value =>
    if key = name then (key, value) :: rest else (key, old) :: put rest name value

/-- Removes the first member with this name, if there is one. -/
def erase : Members α → String → Members α
  | [], _ => []
  | (key, value) :: rest, name =>
    if key = name then rest else (key, value) :: erase rest name

/-- The names, in order. -/
def keys (members : Members α) : List String := members.map Prod.fst

/-- Puts the members of a list one after the other into an empty object. -/
def ofList (entries : List (String × α)) : Members α :=
  entries.foldl (fun members entry => put members entry.1 entry.2) []

/-! ## What each operation does to a lookup -/

theorem get?_put_self (members : Members α) (name : String) (value : α) :
    get? (put members name value) name = some value := by
  fun_induction put members name value <;> simp_all [get?]

theorem get?_put_of_ne {name other : String} (hne : name ≠ other) (members : Members α)
    (value : α) : get? (put members name value) other = get? members other := by
  fun_induction put members name value <;> simp_all [get?]

theorem get?_erase_of_ne {name other : String} (hne : name ≠ other) (members : Members α) :
    get? (erase members name) other = get? members other := by
  fun_induction erase members name <;> simp_all [get?]

theorem get?_eq_none_iff {members : Members α} {name : String} :
    get? members name = none ↔ name ∉ keys members := by
  induction members with
  | nil => simp [get?, keys]
  | cons entry rest ih =>
    obtain ⟨key, value⟩ := entry
    by_cases hkey : key = name
    · simp [get?, keys, hkey]
    · simp [get?, keys, hkey, Ne.symm hkey] at ih ⊢
      exact ih

theorem erase_eq_self {members : Members α} {name : String} (h : get? members name = none) :
    erase members name = members := by
  fun_induction erase members name <;> simp_all [get?]

/-! ## What each operation does to the names -/

theorem keys_put (members : Members α) (name : String) (value : α) :
    keys (put members name value) =
      if name ∈ keys members then keys members else keys members ++ [name] := by
  induction members with
  | nil => simp [put, keys]
  | cons entry rest ih =>
    obtain ⟨key, old⟩ := entry
    by_cases hkey : key = name
    · simp [put, keys, hkey]
    · have hcons : keys ((key, old) :: rest) = key :: keys rest := rfl
      rw [put, if_neg hkey, hcons]
      change key :: keys (put rest name value) = _
      rw [ih]
      by_cases hmem : name ∈ keys rest <;> simp [hmem, Ne.symm hkey]

theorem keys_erase (members : Members α) (name : String) :
    keys (erase members name) = (keys members).erase name := by
  fun_induction erase members name <;> simp_all [keys]

theorem nodup_keys_put {members : Members α} (h : (keys members).Nodup) (name : String)
    (value : α) : (keys (put members name value)).Nodup := by
  rw [keys_put]
  split
  · exact h
  · rename_i hmem
    rw [List.nodup_append]
    refine ⟨h, by simp, ?_⟩
    intro key hkey other hother heq
    rw [List.mem_singleton] at hother
    exact hmem (hother ▸ heq ▸ hkey)

theorem nodup_keys_erase {members : Members α} (h : (keys members).Nodup) (name : String) :
    (keys (erase members name)).Nodup := by
  rw [keys_erase]
  exact h.erase name

end Members

end JsonEdit
