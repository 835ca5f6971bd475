import JsonEdit.Json.Members

/-!
# Changing members

What two changes of the members of an object do after each other.  `assign` is both changes
in one: it gives a name a value or takes the name away.

There are three groups.

* Lookups.  `get?_assign_self` and `get?_assign_of_ne` say what a change does to them.
* One name.  A later change of a name hides an earlier one, and `assign_put_get?` says that
  the value a name had before takes back what `put` did, order included.
* Two names.  Changes of different names are found in either order, and they commute unless
  both names are new: then the one that comes first stays in front.
-/

namespace JsonEdit.Members

variable {α : Type}

/-- Gives the member with this name a value, or takes the member away. -/
def assign (members : Members α) (name : String) : Option α → Members α
  | some value => put members name value
  | none => erase members name

/-! ## Lookups -/

theorem get?_put (members : Members α) (name : String) (value : α) (other : String) :
    get? (put members name value) other =
      if name = other then some value else get? members other := by
  split
  next h => rw [← h, get?_put_self]
  next h => exact get?_put_of_ne h members value

/-- A name that comes once is gone when its member is. -/
theorem get?_erase_self {members : Members α} (h : (keys members).Nodup) (name : String) :
    get? (erase members name) name = none := by
  rw [get?_eq_none_iff, keys_erase]
  exact h.not_mem_erase

/-- With distinct names, a lookup finds the value of each member. -/
theorem get?_eq_some_iff {members : Members α} (h : (keys members).Nodup) {name : String}
    {value : α} : get? members name = some value ↔ (name, value) ∈ members := by
  induction members with
  | nil => simp [get?]
  | cons entry rest ih =>
    obtain ⟨key, old⟩ := entry
    obtain ⟨hnew, hrest⟩ : key ∉ keys rest ∧ (keys rest).Nodup := List.nodup_cons.mp h
    rw [get?]
    split
    next hkey =>
      subst hkey
      have hnone : (key, value) ∉ rest := fun hmem => hnew (List.mem_map.mpr ⟨_, hmem, rfl⟩)
      simp [hnone, eq_comm]
    next hkey => simp [ih hrest, Ne.symm hkey]

/-- What a lookup finds is the value of a member. -/
theorem mem_of_get?_eq_some {members : Members α} {name : String} {value : α}
    (h : get? members name = some value) : (name, value) ∈ members := by
  fun_induction get? members name <;> simp_all

theorem mem_keys_of_get?_eq_some {members : Members α} {name : String} {value : α}
    (h : get? members name = some value) : name ∈ keys members :=
  List.mem_map.mpr ⟨_, mem_of_get?_eq_some h, rfl⟩

theorem get?_assign_self {members : Members α} (h : (keys members).Nodup) (name : String)
    (value : Option α) : get? (assign members name value) name = value := by
  cases value with
  | none => exact get?_erase_self h name
  | some value => exact get?_put_self members name value

theorem get?_assign_of_ne {name other : String} (hne : name ≠ other) (members : Members α)
    (value : Option α) : get? (assign members name value) other = get? members other := by
  cases value with
  | none => exact get?_erase_of_ne hne members
  | some value => exact get?_put_of_ne hne members value

/-- With distinct names, a change of a member is seen at its name alone. -/
theorem get?_assign {members : Members α} (h : (keys members).Nodup) (name : String)
    (value : Option α) (other : String) :
    get? (assign members name value) other =
      if name = other then value else get? members other := by
  split
  next heq => rw [← heq, get?_assign_self h]
  next hne => exact get?_assign_of_ne hne members value

theorem nodup_keys_assign {members : Members α} (h : (keys members).Nodup) (name : String)
    (value : Option α) : (keys (assign members name value)).Nodup := by
  cases value with
  | none => exact nodup_keys_erase h name
  | some value => exact nodup_keys_put h name value

/-! ## One name -/

/-- A new name goes to the end. -/
theorem put_of_get?_eq_none {members : Members α} {name : String} (h : get? members name = none)
    (value : α) : put members name value = members ++ [(name, value)] := by
  fun_induction put members name value <;> simp_all [get?]

/-- A name that comes once is new to the members in front of it. -/
theorem get?_eq_none_of_nodup {front back : Members α} {name : String} {value : α}
    (h : (keys (front ++ (name, value) :: back)).Nodup) : get? front name = none := by
  rw [keys, List.map_append, List.nodup_append] at h
  rw [get?_eq_none_iff]
  exact fun hmem => h.2.2 name hmem name (by simp) rfl

theorem put_of_nodup {front back : Members α} {name : String} {value : α}
    (h : (keys (front ++ (name, value) :: back)).Nodup) :
    put front name value = front ++ [(name, value)] :=
  put_of_get?_eq_none (get?_eq_none_of_nodup h) value

/-- Members with distinct names are put behind others that have none of their names. -/
theorem foldl_put_of_nodup {front back : Members α} (h : (keys (front ++ back)).Nodup) :
    back.foldl (fun members entry => put members entry.1 entry.2) front = front ++ back := by
  induction back generalizing front with
  | nil => rw [List.append_nil, List.foldl_nil]
  | cons entry back ih =>
    have hput : put front entry.1 entry.2 = front ++ [entry] := put_of_nodup h
    rw [List.append_cons] at h ⊢
    rw [List.foldl_cons, hput, ih h]

/-- Members with distinct names that are put one by one into an empty object stay as they are. -/
theorem ofList_of_nodup {members : Members α} (h : (keys members).Nodup) :
    ofList members = members :=
  foldl_put_of_nodup h

/-- Whatever members are put one by one into an empty object, it has each name once. -/
theorem nodup_keys_ofList (entries : List (String × α)) : (keys (ofList entries)).Nodup :=
  List.foldlRecOn (motive := fun members => (keys members).Nodup) entries _ List.nodup_nil
    fun _ h entry _ => nodup_keys_put h entry.1 entry.2

theorem mem_or_eq_of_mem_put {members : Members α} {name : String} {value : α}
    {entry : String × α} (h : entry ∈ put members name value) :
    entry ∈ members ∨ entry = (name, value) := by
  induction members with
  | nil => exact .inr (List.mem_singleton.mp h)
  | cons first rest ih =>
    rw [put] at h
    split at h
    next hkey =>
      rcases List.mem_cons.mp h with hfirst | hrest
      · exact .inr (hkey ▸ hfirst)
      · exact .inl (List.mem_cons_of_mem _ hrest)
    next hkey =>
      rcases List.mem_cons.mp h with hfirst | hrest
      · exact .inl (hfirst ▸ List.mem_cons_self)
      · exact (ih hrest).imp_left (List.mem_cons_of_mem _)

/-- The members of an object that was put together are among those that were put. -/
theorem mem_of_mem_ofList {entries : List (String × α)} {entry : String × α}
    (h : entry ∈ ofList entries) : entry ∈ entries := by
  have hall : ∀ other ∈ ofList entries, other ∈ entries := by
    refine List.foldlRecOn (motive := fun members => ∀ other ∈ members, other ∈ entries) entries _
      (List.forall_mem_nil _) fun members hmembers new hnew => ?_
    intro other hother
    rcases mem_or_eq_of_mem_put hother with hold | heq
    · exact hmembers other hold
    · rw [heq]
      exact hnew
  exact hall entry h

@[simp]
theorem put_put_self (members : Members α) (name : String) (value other : α) :
    put (put members name value) name other = put members name other := by
  fun_induction put members name value <;> simp_all [put]

/-- To give a name the value that it has changes nothing. -/
theorem put_eq_self {members : Members α} {name : String} {value : α}
    (h : get? members name = some value) : put members name value = members := by
  fun_induction put members name value <;> simp_all [get?]

theorem erase_append_self {members : Members α} {name : String} (h : get? members name = none)
    (value : α) : erase (members ++ [(name, value)]) name = members := by
  fun_induction get? members name <;> simp_all [erase]

/-- The value that a name had takes back what `put` did to it. -/
theorem assign_put_get? (members : Members α) (name : String) (value : α) :
    assign (put members name value) name (get? members name) = members := by
  cases hold : get? members name with
  | none => rw [assign, put_of_get?_eq_none hold, erase_append_self hold]
  | some old => rw [assign, put_put_self, put_eq_self hold]

/-- A member that goes and comes back with its value is found as before. -/
theorem get?_put_erase {members : Members α} {name : String} {value : α}
    (h : get? members name = some value) (other : String) :
    get? (put (erase members name) name value) other = get? members other := by
  rw [get?_put]
  split
  next heq => rw [← heq, h]
  next hne => exact get?_erase_of_ne hne members

/-- With distinct names, the last member goes and comes back to the same place. -/
theorem put_erase_of_last {members : Members α} {name : String} {value : α}
    (h : (keys (members ++ [(name, value)])).Nodup) :
    put (erase (members ++ [(name, value)]) name) name value = members ++ [(name, value)] := by
  have hnew : get? members name = none := get?_eq_none_of_nodup h
  rw [erase_append_self hnew, put_of_get?_eq_none hnew]

theorem length_erase_of_get?_eq_some {members : Members α} {name : String} {old : α}
    (h : get? members name = some old) : (erase members name).length + 1 = members.length := by
  fun_induction erase members name <;> simp_all [get?]

/-! ## Two names -/

/-- With distinct names, changes of two names are found in either order. -/
theorem get?_assign_assign {members : Members α} (h : (keys members).Nodup) {a b : String}
    (hne : a ≠ b) (x y : Option α) (name : String) :
    get? (assign (assign members a x) b y) name = get? (assign (assign members b y) a x) name := by
  rw [get?_assign (nodup_keys_assign h a x), get?_assign h,
    get?_assign (nodup_keys_assign h b y), get?_assign h]
  by_cases ha : a = name
  · subst ha
    rw [if_neg hne.symm, if_pos rfl, if_pos rfl]
  · rw [if_neg ha, if_neg ha]

/-- Changes of different names commute, unless both names are new. -/
theorem assign_comm {a b : String} (hne : a ≠ b) (members : Members α) (x y : Option α)
    (hold : x = none ∨ y = none ∨ get? members a ≠ none ∨ get? members b ≠ none) :
    assign (assign members a x) b y = assign (assign members b y) a x := by
  have hne' : b ≠ a := hne.symm
  induction members with
  | nil => cases x <;> cases y <;> simp_all [assign, get?, put, erase]
  | cons entry rest ih =>
    obtain ⟨key, old⟩ := entry
    by_cases ha : key = a
    · cases x <;> cases y <;> simp_all [assign, put, erase]
    · by_cases hb : key = b
      · cases x <;> cases y <;> simp_all [assign, put, erase]
      · cases x <;> cases y <;> simp_all [assign, put, erase, get?]

end JsonEdit.Members
