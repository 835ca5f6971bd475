import JsonEdit.Proofs.Json.Members
import Mathlib.Data.List.Induction

/-!
# Members over a history

The members of an object are what is left of all the changes that were made to it.  This module
says which members these are and in which order, from the list of the changes alone.

There are four groups.

* Changes.  `Members.run` makes the changes of a history one after the other.
* Lookups.  The last change of a name decides about its member (`get?_run`).
* Order.  `Enters` is the place in a history at which a name comes in to stay.  `Arranged` says
  that the names which never left stand in front and that the others follow in the order in which
  they came in.  `arranged_put` and `arranged_erase` are its two steps, and `arranged_run` the
  induction on the history, from its end.
* Lists of entries.  An object that is built from a list has the names in the order in which they
  occur for the first time, each with its last value.

`members_follow_history` is the assembly.
-/

namespace JsonEdit.Members

variable {α : Type}

/-! ## Changes -/

/-- A change of the members of an object. -/
inductive Change (α : Type) where
  /-- The member with this name gets a value. -/
  | put (name : String) (value : α)
  /-- The member with this name is removed. -/
  | erase (name : String)
deriving DecidableEq

namespace Change

/-- The name of the member that is changed. -/
def name : Change α → String
  | put name _ | erase name => name

/-- The value that the member has after the change, or none if it is gone. -/
def value? : Change α → Option α
  | put _ value => some value
  | erase _ => none

/-- Members after one change. -/
def apply (members : Members α) : Change α → Members α
  | put name value => Members.put members name value
  | erase name => Members.erase members name

theorem apply_eq_assign (members : Members α) (change : Change α) :
    change.apply members = assign members change.name change.value? := by
  cases change <;> rfl

end Change

/-- Members after all changes of a history. -/
def run (members : Members α) (history : List (Change α)) : Members α :=
  history.foldl Change.apply members

theorem run_concat (members : Members α) (history : List (Change α)) (change : Change α) :
    run members (history ++ [change]) = change.apply (run members history) := by
  rw [run, List.foldl_append]
  rfl

theorem nodup_keys_run {members : Members α} (h : (keys members).Nodup)
    (history : List (Change α)) : (keys (run members history)).Nodup := by
  induction history using List.reverseRecOn with
  | nil => exact h
  | append_singleton history change ih =>
    rw [run_concat, Change.apply_eq_assign]
    exact nodup_keys_assign ih _ _

/-! ## Lookups -/

/-- The last change of the member with this name. -/
def lastChange? (history : List (Change α)) (name : String) : Option (Change α) :=
  history.reverse.find? fun change => change.name == name

theorem lastChange?_concat (history : List (Change α)) (change : Change α) (name : String) :
    lastChange? (history ++ [change]) name =
      if change.name = name then some change else lastChange? history name := by
  rw [lastChange?, List.reverse_append, List.reverse_singleton, List.singleton_append]
  by_cases hname : change.name = name
  · rw [List.find?_cons_of_pos (by simpa using hname), if_pos hname]
  · rw [List.find?_cons_of_neg (by simpa using hname), if_neg hname, lastChange?]

theorem name_of_lastChange? {history : List (Change α)} {name : String} {change : Change α}
    (h : lastChange? history name = some change) : change.name = name := by
  simpa using List.find?_some h

/-- After a history a name has the value that its last change gave it, or the one that it had
before if no change was made to it. -/
theorem get?_run {members : Members α} (h : (keys members).Nodup) (history : List (Change α))
    (name : String) :
    get? (run members history) name =
      (lastChange? history name).elim (get? members name) Change.value? := by
  induction history using List.reverseRecOn with
  | nil => rfl
  | append_singleton history change ih =>
    rw [run_concat, Change.apply_eq_assign, get?_assign (nodup_keys_run h history),
      lastChange?_concat, ih]
    split <;> rfl

/-- A value is found if the last change of its name is the one that gave it, or if it was found
before and its name was not changed. -/
theorem get?_run_eq_some_iff {members : Members α} (h : (keys members).Nodup)
    (history : List (Change α)) (name : String) (value : α) :
    get? (run members history) name = some value ↔
      lastChange? history name = some (.put name value) ∨
        (lastChange? history name = none ∧ get? members name = some value) := by
  rw [get?_run h]
  cases hlast : lastChange? history name with
  | none => simp
  | some change =>
    have hname := name_of_lastChange? hlast
    cases change with
    | put other old =>
      obtain rfl : other = name := hname
      simp [Change.value?]
    | erase other => simp [Change.value?]

/-! ## Order -/

/-- A list with one more element at its end. -/
theorem getElem?_concat_eq_some_iff {β : Type} {xs : List β} {x y : β} {i : Nat} :
    (xs ++ [x])[i]? = some y ↔ xs[i]? = some y ∨ (i = xs.length ∧ x = y) := by
  rcases Nat.lt_trichotomy i xs.length with hlt | heq | hgt
  · have hne : i ≠ xs.length := by omega
    rw [List.getElem?_append_left hlt]
    simp [hne]
  · subst heq
    simp
  · have hne : i ≠ xs.length := by omega
    have hnone : xs[i]? = none := List.getElem?_eq_none (by omega)
    have hrange : (xs ++ [x]).length ≤ i := by
      rw [List.length_append, List.length_singleton]
      omega
    simp [List.getElem?_eq_none hrange, hnone, hne]

/-- A name comes in to stay at this place of a history: no removal of it follows, and no value
that was given to it earlier has stayed. -/
structure Enters (history : List (Change α)) (name : String) (place : Nat) : Prop where
  /-- At this place the name gets a value. -/
  put : ∃ value, history[place]? = some (.put name value)
  /-- Every removal of the name is in front of it. -/
  behind : ∀ i, history[i]? = some (.erase name) → i < place
  /-- Whenever the name got a value in front of it, a removal followed. -/
  first : ∀ i value, history[i]? = some (.put name value) → i < place →
    ∃ j, i < j ∧ history[j]? = some (.erase name)

namespace Enters

variable {history : List (Change α)} {name : String} {i j : Nat}

theorem lt_length (h : Enters history name i) : i < history.length := by
  rcases h.put with ⟨value, hvalue⟩
  exact (List.getElem?_eq_some_iff.mp hvalue).1

theorem not_lt (hi : Enters history name i) (hj : Enters history name j) : ¬ i < j := by
  intro hlt
  rcases hi.put with ⟨value, hvalue⟩
  rcases hj.first i value hvalue hlt with ⟨k, hik, hk⟩
  have hki := hi.behind k hk
  omega

/-- A name comes in to stay at one place only. -/
theorem eq (hi : Enters history name i) (hj : Enters history name j) : i = j := by
  have hle := hi.not_lt hj
  have hge := hj.not_lt hi
  omega

/-- A further change moves the place only if it removes the name. -/
theorem concat (h : Enters history name i) {change : Change α} (hchange : change ≠ .erase name) :
    Enters (history ++ [change]) name i where
  put := by
    rcases h.put with ⟨value, hvalue⟩
    exact ⟨value, getElem?_concat_eq_some_iff.mpr (.inl hvalue)⟩
  behind := by
    intro k hk
    rcases getElem?_concat_eq_some_iff.mp hk with hold | ⟨-, hnew⟩
    · exact h.behind k hold
    · exact absurd hnew hchange
  first := by
    intro k value hk hlt
    rcases getElem?_concat_eq_some_iff.mp hk with hold | ⟨hend, -⟩
    · rcases h.first k value hold hlt with ⟨l, hkl, hl⟩
      exact ⟨l, hkl, getElem?_concat_eq_some_iff.mpr (.inl hl)⟩
    · have hlength := h.lt_length
      omega

end Enters

/-- A name that got a value and is not there at the end was removed in between. -/
theorem exists_erase_of_get?_run_eq_none {members : Members α} (h : (keys members).Nodup)
    {history : List (Change α)} {name : String} (hnone : get? (run members history) name = none)
    {i : Nat} {value : α} (hput : history[i]? = some (.put name value)) :
    ∃ j, i < j ∧ history[j]? = some (.erase name) := by
  induction history using List.reverseRecOn with
  | nil => simp at hput
  | append_singleton history change ih =>
    rw [run_concat, Change.apply_eq_assign, get?_assign (nodup_keys_run h history)] at hnone
    rcases getElem?_concat_eq_some_iff.mp hput with hold | ⟨-, hnew⟩
    · by_cases hname : change.name = name
      · rw [if_pos hname] at hnone
        have hlast : change = .erase name := by
          cases change with
          | put other old => cases hnone
          | erase other => exact congrArg Change.erase hname
        have hlt : i < history.length := (List.getElem?_eq_some_iff.mp hold).1
        exact ⟨history.length, hlt, getElem?_concat_eq_some_iff.mpr (.inr ⟨rfl, hlast⟩)⟩
      · rw [if_neg hname] at hnone
        rcases ih hnone hold with ⟨j, hij, hj⟩
        exact ⟨j, hij, getElem?_concat_eq_some_iff.mpr (.inl hj)⟩
    · subst hnew
      simp [Change.name, Change.value?] at hnone

/-- A new name that gets a value at the end of a history comes in there. -/
theorem enters_concat_put {members : Members α} (h : (keys members).Nodup)
    {history : List (Change α)} {name : String} (hnone : get? (run members history) name = none)
    (value : α) : Enters (history ++ [.put name value]) name history.length where
  put := ⟨value, getElem?_concat_eq_some_iff.mpr (.inr ⟨rfl, rfl⟩)⟩
  behind := by
    intro i hi
    rcases getElem?_concat_eq_some_iff.mp hi with hold | ⟨-, hnew⟩
    · exact (List.getElem?_eq_some_iff.mp hold).1
    · cases hnew
  first := by
    intro i old hi hlt
    rcases getElem?_concat_eq_some_iff.mp hi with hold | ⟨hend, -⟩
    · rcases exists_erase_of_get?_run_eq_none h hnone hold with ⟨j, hij, hj⟩
      exact ⟨j, hij, getElem?_concat_eq_some_iff.mpr (.inl hj)⟩
    · omega

/-- Names that come in to stay in a history, in the order in which they do. -/
def InOrderOfEntry (history : List (Change α)) (names : List String) : Prop :=
  (∀ name ∈ names, ∃ i, Enters history name i) ∧
    names.Pairwise fun a b => ∀ i j, Enters history a i → Enters history b j → i < j

namespace InOrderOfEntry

variable {history : List (Change α)} {names : List String}

/-- A further change that removes none of the names leaves their order, because the place where a
name enters is the only one that it has. -/
theorem concat (h : InOrderOfEntry history names) {change : Change α}
    (hchange : ∀ name ∈ names, change ≠ .erase name) :
    InOrderOfEntry (history ++ [change]) names := by
  have hback : ∀ name ∈ names, ∀ i, Enters (history ++ [change]) name i →
      Enters history name i := by
    intro name hname i hi
    rcases h.1 name hname with ⟨j, hj⟩
    rw [hi.eq (hj.concat (hchange name hname))]
    exact hj
  constructor
  · intro name hname
    rcases h.1 name hname with ⟨i, hi⟩
    exact ⟨i, hi.concat (hchange name hname)⟩
  · refine h.2.imp_of_mem ?_
    intro a b ha hb hab i j hi hj
    exact hab i j (hback a ha i hi) (hback b hb j hj)

theorem filter (h : InOrderOfEntry history names) (p : String → Bool) :
    InOrderOfEntry history (names.filter p) :=
  ⟨fun name hname => h.1 name (List.mem_filter.mp hname).1, h.2.filter p⟩

/-- A name that comes in at the end is the last one. -/
theorem concat_put (h : InOrderOfEntry history names) {name : String} {value : α}
    (hname : Enters (history ++ [.put name value]) name history.length) :
    InOrderOfEntry (history ++ [.put name value]) (names ++ [name]) := by
  have hold : InOrderOfEntry (history ++ [.put name value]) names := h.concat (by simp)
  constructor
  · intro other hother
    rcases List.mem_append.mp hother with hmem | hmem
    · exact hold.1 other hmem
    · rw [List.mem_singleton.mp hmem]
      exact ⟨_, hname⟩
  · rw [List.pairwise_append]
    refine ⟨hold.2, List.pairwise_singleton _ _, ?_⟩
    intro a ha b hb i j hi hj
    rw [List.mem_singleton.mp hb] at hj
    rcases h.1 a ha with ⟨k, hk⟩
    have hik : i = k := hi.eq (hk.concat (by simp))
    have hjend : j = history.length := hj.eq hname
    have hlt := hk.lt_length
    omega

end InOrderOfEntry

/-- Whether a name is removed in a history. -/
def isErased (history : List (Change α)) (name : String) : Bool :=
  history.any fun change => change.value?.isNone && name == change.name

/-- The names of members that were never removed, in their order. -/
def kept (members : Members α) (history : List (Change α)) : List String :=
  (keys members).filter fun name => !isErased history name

/-- The names that never left stand in front, and the others follow in the order in which they
came in. -/
def Arranged (members : Members α) (history : List (Change α)) : Prop :=
  ∃ later, keys (run members history) = kept members history ++ later ∧
    InOrderOfEntry history later

section

variable {members : Members α} {history : List (Change α)} {name : String}

theorem kept_concat_put (value : α) :
    kept members (history ++ [.put name value]) = kept members history := by
  simp [kept, isErased, Change.value?]

theorem kept_concat_erase :
    kept members (history ++ [.erase name]) =
      (kept members history).filter fun other => other != name := by
  rw [kept, kept, List.filter_filter]
  refine List.filter_congr fun other _ => ?_
  simp [isErased, Change.value?, Change.name, bne, Bool.and_comm]

/-- A name that gets a value stays at its place, or comes in at the end. -/
theorem arranged_put (hmembers : (keys members).Nodup) (h : Arranged members history) (value : α) :
    Arranged members (history ++ [.put name value]) := by
  rcases h with ⟨later, hkeys, horder⟩
  unfold Arranged
  rw [run_concat, Change.apply, keys_put, kept_concat_put]
  by_cases hmem : name ∈ keys (run members history)
  · rw [if_pos hmem]
    exact ⟨later, hkeys, horder.concat (by simp)⟩
  · have hnone := get?_eq_none_iff.mpr hmem
    rw [if_neg hmem, hkeys, List.append_assoc]
    exact ⟨later ++ [name], rfl, horder.concat_put (enters_concat_put hmembers hnone value)⟩

/-- The others close the gap that a name leaves. -/
theorem arranged_erase (hmembers : (keys members).Nodup) (h : Arranged members history) :
    Arranged members (history ++ [.erase name]) := by
  rcases h with ⟨later, hkeys, horder⟩
  refine ⟨later.filter fun other => other != name, ?_, ?_⟩
  · rw [run_concat, Change.apply, keys_erase, (nodup_keys_run hmembers history).erase_eq_filter,
      hkeys, List.filter_append, kept_concat_erase]
  · refine (horder.filter _).concat ?_
    intro other hother heq
    cases heq
    simp at hother

end

/-- The order of the names after a history. -/
theorem arranged_run {members : Members α} (h : (keys members).Nodup)
    (history : List (Change α)) : Arranged members history := by
  induction history using List.reverseRecOn with
  | nil =>
    have hall : kept members [] = keys members := List.filter_eq_self.mpr fun _ _ => rfl
    exact ⟨[], by rw [hall, List.append_nil, run, List.foldl_nil], by simp [InOrderOfEntry]⟩
  | append_singleton history change ih =>
    cases change with
    | put name value => exact arranged_put h ih value
    | erase name => exact arranged_erase h ih

/-! ## Lists of entries -/

theorem ofList_concat (entries : List (String × α)) (entry : String × α) :
    ofList (entries ++ [entry]) = put (ofList entries) entry.1 entry.2 := by
  rw [ofList, List.foldl_append]
  rfl

/-- To build an object from a list is to make a change for each entry. -/
theorem ofList_eq_run (entries : List (String × α)) :
    ofList entries = run [] (entries.map fun entry => .put entry.1 entry.2) := by
  rw [run, List.foldl_map]
  rfl

/-- The names stand in the order in which they occur for the first time. -/
theorem keys_ofList (entries : List (String × α)) :
    keys (ofList entries) = (entries.map Prod.fst).eraseDups := by
  induction entries using List.reverseRecOn with
  | nil => rfl
  | append_singleton entries entry ih =>
    rw [ofList_concat, keys_put, ih, List.map_append, List.eraseDups_append]
    by_cases hmem : entry.1 ∈ entries.map Prod.fst
    · simp [List.mem_eraseDups, hmem, List.removeAll]
    · simp [List.mem_eraseDups, hmem, List.removeAll, List.eraseDups_cons]

/-- Each name has the value that is given to it last. -/
theorem get?_ofList (entries : List (String × α)) (name : String) :
    get? (ofList entries) name =
      (entries.reverse.find? fun entry => entry.1 == name).map Prod.snd := by
  induction entries using List.reverseRecOn with
  | nil => rfl
  | append_singleton entries entry ih =>
    rw [ofList_concat, get?_put, ih, List.reverse_append, List.reverse_singleton,
      List.singleton_append]
    by_cases hname : entry.1 = name
    · rw [List.find?_cons_of_pos (by simpa using hname), if_pos hname, Option.map_some]
    · rw [List.find?_cons_of_neg (by simpa using hname), if_neg hname]

/-! ## The whole law -/

/-- The members after a history, by the history alone.  A name is there if its last change gave it
a value, or if it was there before and never changed, and this is its value.  No name is there
twice.  The names that were there and never removed come first, in their old order, and behind
them stand the others in the order in which they came in to stay.  An object that is built from a
list of entries, with repeated names or without, is what a history of these entries makes of the
empty one: the names are in the order of their first entries, each with the value of its last. -/
theorem members_follow_history {members : Members α} (h : (keys members).Nodup)
    (history : List (Change α)) :
    (∀ name, contains (run members history) name = true ↔
        (∃ value, lastChange? history name = some (.put name value)) ∨
          (lastChange? history name = none ∧ contains members name = true)) ∧
      (∀ name value, get? (run members history) name = some value ↔
        lastChange? history name = some (.put name value) ∨
          (lastChange? history name = none ∧ get? members name = some value)) ∧
      (keys (run members history)).Nodup ∧
      (∃ later, keys (run members history) = kept members history ++ later ∧
        InOrderOfEntry history later) ∧
      ∀ entries : List (String × α),
        ofList entries = run [] (entries.map fun entry => .put entry.1 entry.2) ∧
        keys (ofList entries) = (entries.map Prod.fst).eraseDups ∧
        ∀ name, get? (ofList entries) name =
          (entries.reverse.find? fun entry => entry.1 == name).map Prod.snd := by
  refine ⟨?_, get?_run_eq_some_iff h history, nodup_keys_run h history, arranged_run h history, ?_⟩
  · intro name
    simp only [contains, Option.isSome_iff_exists, get?_run_eq_some_iff h history, exists_or,
      exists_and_left]
  · intro entries
    exact ⟨ofList_eq_run entries, keys_ofList entries, get?_ofList entries⟩

/-- The first of three names is removed and comes back, the second one gets another value, the
third one is removed for good, and a new name gets a value twice.  So the second name is in front,
and the new one is before the one that came back. -/
theorem members_follow_history_of_six_changes :
    (keys [("a", 1), ("b", 2), ("c", 3)]).Nodup ∧
      run [("a", 1), ("b", 2), ("c", 3)] [.put "d" 4, .erase "a", .put "b" 5, .put "a" 6,
          .erase "c", .put "d" 7] = [("b", 5), ("d", 7), ("a", 6)] ∧
      contains [("b", 5), ("d", 7), ("a", 6)] "c" = false ∧
      get? [("b", 5), ("d", 7), ("a", 6)] "d" = some 7 ∧
      InOrderOfEntry [.put "d" 4, .erase "a", .put "b" 5, .put "a" 6, .erase "c", .put "d" 7]
        ["d", "a"] := by
  have hmembers : (keys [("a", 1), ("b", 2), ("c", 3)]).Nodup := by decide
  have hrun : run [("a", 1), ("b", 2), ("c", 3)] [.put "d" 4, .erase "a", .put "b" 5, .put "a" 6,
      .erase "c", .put "d" 7] = [("b", 5), ("d", 7), ("a", 6)] := rfl
  rcases members_follow_history hmembers [.put "d" 4, .erase "a", .put "b" 5, .put "a" 6,
    .erase "c", .put "d" 7] with ⟨hcontains, hvalue, -, ⟨later, hkeys, horder⟩, -⟩
  rw [hrun] at hcontains hvalue hkeys
  have hlater : ["d", "a"] = later := (List.cons.inj hkeys).2
  refine ⟨hmembers, hrun, ?_, (hvalue "d" 7).mpr (.inl rfl), hlater ▸ horder⟩
  rw [← Bool.not_eq_true, hcontains "c"]
  simp [lastChange?, Change.name]

end JsonEdit.Members
