import JsonEdit.Proofs.Json.Advance
import JsonEdit.Proofs.Json.Scalars
import Mathlib.Tactic.SplitIfs

/-!
# What reading can give

Not every value is the value of a text.  The reader puts members into an object one by one, so
a name that comes again is not there twice, and it gives up integers for doubles where 64 bits
are not enough.  Both are true of everything that the reading machine holds on its way, and so
of the value at the end.

There are three groups.

* Numbers.  The significand of an integer is checked as it grows (`fits_of_take?`), so the
  integer at its end has 64 bits.
* States.  `State.Clean` says of all that a state holds that it is clean, the open containers
  with what has been read of them included.  Each step keeps that: `clean_deliver` puts a value
  that has ended into its container, `clean_across` is a step in a gap, `clean_advance` any step.
* Texts.  By induction on the text a whole run keeps it too, which gives `clean_of_parse`.
-/

namespace JsonEdit.Json

/-- What reading keeps true of a value: an object has each name once, and an integer has 64 bits. -/
def Regular (node : Json) : Prop :=
  node.names.Nodup ∧ ∀ i, node = number (.int i) → (Number.int i).IsInteger64

/-- A value such as reading gives. -/
def Clean (x : Json) : Prop := Everywhere Regular x

theorem Clean.distinctNames {x : Json} (h : x.Clean) : x.DistinctNames :=
  Everywhere.imp (fun _ hnode => hnode.1) x h

/-- That a value is such as reading gives can be seen from its names and its scalars. -/
theorem clean_of_scalars {x : Json} (hnames : x.DistinctNames)
    (hscalars : ∀ y ∈ x.scalars, ∀ i, y = number (.int i) → (Number.int i).IsInteger64) :
    x.Clean := by
  refine hnames.and (everywhere_of_scalars ?_ hscalars)
  intro y hy i hi
  rw [hi] at hy
  cases hy

/-- Every number is an integer. -/
def Integers (x : Json) : Prop := ∀ n, number n ∈ x.scalars → ∃ i, n = .int i

theorem Integers64.integers {x : Json} (h : x.Integers64) : x.Integers := by
  intro n hn
  obtain ⟨i, hi, -⟩ := integers64_iff.mp h n hn
  exact ⟨i, hi⟩

theorem Clean.integers64 {x : Json} (h : x.Clean) (hx : x.Integers) : x.Integers64 := by
  rw [integers64_iff]
  intro n hn
  obtain ⟨i, hi⟩ := hx n hn
  subst hi
  exact (Everywhere.of_mem_scalars h hn).2 i rfl

theorem clean_array_iff {items : List Json} : (array items).Clean ↔ ∀ x ∈ items, x.Clean := by
  rw [Clean, Everywhere, everywhereItems_iff]
  simp [Regular, names, Clean]

theorem clean_object_iff {members : List (String × Json)} :
    (object members).Clean ↔
      (Members.keys members).Nodup ∧ ∀ name x, (name, x) ∈ members → x.Clean := by
  rw [Clean, Everywhere, everywhereMembers_iff]
  simp [Regular, names, Clean]

theorem clean_put {members : List (String × Json)} (hmembers : (object members).Clean)
    (name : String) {value : Json} (hvalue : value.Clean) :
    (object (Members.put members name value)).Clean := by
  obtain ⟨hnodup, hparts⟩ := clean_object_iff.mp hmembers
  have hput := Members.nodup_keys_put hnodup name value
  refine clean_object_iff.mpr ⟨hput, ?_⟩
  intro other x hx
  rw [← Members.get?_eq_some_iff hput, Members.get?_put] at hx
  split at hx
  · cases hx
    exact hvalue
  · exact hparts other x (Members.mem_of_get?_eq_some hx)

namespace Reader

/-! ## Numbers -/

namespace Digits

/-- The significand of an integer has 64 bits. -/
def Fits (digits : Digits) : Prop :=
  ∀ significand, digits = .whole significand → significand ≤ greatestSignificand

theorem fits_value {c : Char} (hc : c.isDigit = true) : value c ≤ greatestSignificand := by
  have hrange : 48 ≤ c.toNat ∧ c.toNat ≤ 57 := Char.isDigit_iff_toNat.mp hc
  rw [value, greatestSignificand]
  omega

theorem fits_of_take? {c : Char} {digits longer : Digits}
    (h : digits.take? c = some (.ok longer)) : longer.Fits := by
  intro significand hlonger
  subst hlonger
  cases digits with
  | start =>
    simp only [take?, refuse] at h
    split_ifs at h with hzero hdigit <;> simp at h
    rw [← h]
    exact fits_value hdigit
  | whole shorter =>
    simp only [take?] at h
    split_ifs at h with hdigit hfits <;> simp [afterDigits?] at h
    · rw [← h]
      exact hfits
    · split_ifs at h <;> simp at h
  | zero | dropped _ _ | point _ _ | fraction _ _ | cut _ _ | mark _ _ | sign _ _ _
  | power _ _ _ _ | vanished =>
    simp only [take?, takeFraction, takePower, refuse] at h
    split_ifs at h <;> simp [afterDigits?, afterFraction?] at h <;> split_ifs at h <;> simp at h

end Digits

theorem fits_of_start? {c : Char} {numeral : Numeral} (h : Numeral.start? c = some numeral) :
    numeral.digits.Fits := by
  intro significand hwhole
  rw [Numeral.start?] at h
  split_ifs at h with hminus hzero hdigit
  · cases h
    cases hwhole
  · cases h
    cases hwhole
  · cases h
    cases hwhole
    exact Digits.fits_value hdigit

theorem fits_of_numeral_take? {c : Char} {numeral longer : Numeral}
    (h : numeral.take? c = some (.ok longer)) : longer.digits.Fits := by
  rw [Numeral.take?, Option.map_eq_some_iff] at h
  obtain ⟨taken, htaken, h⟩ := h
  cases taken with
  | error refusal => cases h
  | ok digits =>
    cases h
    exact Digits.fits_of_take? htaken

theorem clean_double {negative : Bool} {significand : Nat} {exponent : Int} {n : Number}
    (h : Numeral.double negative significand exponent = .ok n) : (Json.number n).Clean := by
  rw [Numeral.double] at h
  split at h
  · cases h
    exact ⟨List.nodup_nil, nofun⟩
  · cases h

theorem clean_integer {i : Int} (hlow : -2 ^ 63 ≤ i) (hhigh : i < 2 ^ 64) :
    (Json.number (.int i)).Clean := by
  refine ⟨List.nodup_nil, ?_⟩
  intro j hj
  cases hj
  exact ⟨i, rfl, hlow, hhigh⟩

theorem clean_whole {negative : Bool} {significand : Nat} {n : Number}
    (hfits : significand ≤ Digits.greatestSignificand)
    (h : Numeral.whole negative significand = .ok n) : (Json.number n).Clean := by
  rw [Digits.greatestSignificand] at hfits
  rw [Numeral.whole] at h
  split_ifs at h with hpositive hrange
  · cases h
    exact clean_integer (by omega) (by omega)
  · exact clean_double h
  · rw [Digits.greatestNegative] at hrange
    cases h
    exact clean_integer (by omega) (by omega)

/-- A number that has been read is a double, or an integer of 64 bits. -/
theorem clean_of_numeral_finish {numeral : Numeral} {n : Number} (hfits : numeral.digits.Fits)
    (h : numeral.finish = .ok n) : (Json.number n).Clean := by
  rcases numeral with ⟨negative, digits⟩
  cases digits with
  | start | point _ _ | mark _ _ | sign _ _ _ => cases h
  | zero => exact clean_whole (Nat.zero_le _) h
  | whole significand => exact clean_whole (hfits significand rfl) h
  | dropped _ _ | fraction _ _ | cut _ _ | power _ _ _ _ => exact clean_double h
  | vanished =>
    rw [Numeral.finish] at h
    exact clean_double h

/-! ## States -/

/-- An open container with what has been read of it. -/
def Frame.container : Frame → Json
  | array items => .array items
  | object members _ => .object members

/-- The open containers are clean so far. -/
def CleanFrames (frames : List Frame) : Prop := ∀ frame ∈ frames, frame.container.Clean

theorem CleanFrames.cons {frame : Frame} {frames : List Frame} (hframe : frame.container.Clean)
    (hframes : CleanFrames frames) : CleanFrames (frame :: frames) :=
  List.forall_mem_cons.mpr ⟨hframe, hframes⟩

/-- What is held in a gap is clean. -/
def Gap.Clean : Gap → Prop
  | value frames | arrayStart frames | objectStart frames => CleanFrames frames
  | item items frames | afterItem items frames => (Json.array items).Clean ∧ CleanFrames frames
  | member members frames | afterName members _ frames | afterMember members frames =>
    (Json.object members).Clean ∧ CleanFrames frames
  | done x => x.Clean

/-- The members that wait for the name that is being read are clean. -/
def Role.Clean : Role → Prop
  | value => True
  | name members => (Json.object members).Clean

/-- What a state holds is clean, and the number that is being read will be. -/
def State.Clean : State → Prop
  | .gap between => between.Clean
  | .literal _ _ value frames => value.Clean ∧ CleanFrames frames
  | .number numeral frames => numeral.digits.Fits ∧ CleanFrames frames
  | .string _ role frames => role.Clean ∧ CleanFrames frames

/-- A value that has ended goes into the container around it, if there is one. -/
theorem clean_deliver {x : Json} {frames : List Frame} (hx : x.Clean)
    (hframes : CleanFrames frames) : (deliver x frames).Clean := by
  cases frames with
  | nil => exact hx
  | cons frame frames =>
    obtain ⟨hframe, hothers⟩ := List.forall_mem_cons.mp hframes
    cases frame with
    | array items =>
      have hitems := clean_array_iff.mp hframe
      exact ⟨clean_array_iff.mpr (List.forall_mem_cons.mpr ⟨hx, hitems⟩), hothers⟩
    | object members name => exact ⟨clean_put hframe name hx, hothers⟩

theorem clean_close {role : Role} {frames : List Frame} (hrole : role.Clean)
    (hframes : CleanFrames frames) (text : String) : (role.close text frames).Clean := by
  cases role with
  | value => exact clean_deliver ⟨List.nodup_nil, nofun⟩ hframes
  | name members => exact ⟨hrole, hframes⟩

theorem clean_empty : (Json.array []).Clean ∧ (Json.object []).Clean :=
  ⟨clean_array_iff.mpr nofun, clean_object_iff.mpr ⟨List.nodup_nil, nofun⟩⟩

theorem clean_begin {c : Char} {frames : List Frame} {next : State} (hframes : CleanFrames frames)
    (h : begin c frames = .ok next) : next.Clean := by
  have hopening : ∀ gap : Gap, gap.Clean → opening frames gap = .ok next → next.Clean := by
    intro gap hgap hopen
    rw [opening] at hopen
    split at hopen
    · cases hopen
      exact hgap
    · cases hopen
  rw [begin] at h
  split_ifs at h
  · cases h
    exact ⟨trivial, hframes⟩
  · exact hopening (.arrayStart frames) hframes h
  · exact hopening (.objectStart frames) hframes h
  · cases h
    exact ⟨⟨List.nodup_nil, nofun⟩, hframes⟩
  · cases h
    exact ⟨⟨List.nodup_nil, nofun⟩, hframes⟩
  · cases h
    exact ⟨⟨List.nodup_nil, nofun⟩, hframes⟩
  · split at h
    · next numeral hstart =>
      cases h
      exact ⟨fits_of_start? hstart, hframes⟩
    · cases h

/-- A character between two tokens keeps what is held clean. -/
theorem clean_across {c : Char} {gap : Gap} {next : State} (hgap : gap.Clean)
    (h : across c gap = .ok next) : next.Clean := by
  cases gap with
  | value frames => exact clean_begin hgap h
  | arrayStart frames =>
    rw [across] at h
    split_ifs at h
    · cases h
      exact clean_deliver clean_empty.1 hgap
    · have hopen : CleanFrames (.array [] :: frames) := CleanFrames.cons clean_empty.1 hgap
      exact clean_begin hopen h
  | item items frames =>
    rw [across] at h
    split_ifs at h
    · cases h
    · have hopen : CleanFrames (.array items :: frames) := CleanFrames.cons hgap.1 hgap.2
      exact clean_begin hopen h
  | afterItem items frames =>
    rw [across] at h
    split_ifs at h
    · cases h
      exact hgap
    · cases h
      have hitems := clean_array_iff.mp hgap.1
      refine clean_deliver (clean_array_iff.mpr ?_) hgap.2
      intro x hx
      exact hitems x (List.mem_reverse.mp hx)
    · cases h
  | objectStart frames =>
    rw [across] at h
    split_ifs at h
    · cases h
      exact ⟨clean_empty.2, hgap⟩
    · cases h
      exact clean_deliver clean_empty.2 hgap
    · cases h
  | member members frames =>
    rw [across] at h
    split_ifs at h
    · cases h
      exact hgap
    · cases h
    · cases h
  | afterName members name frames =>
    rw [across] at h
    split_ifs at h
    · cases h
      exact CleanFrames.cons hgap.1 hgap.2
    · cases h
  | afterMember members frames =>
    rw [across] at h
    split_ifs at h
    · cases h
      exact hgap
    · cases h
      exact clean_deliver hgap.1 hgap.2
    · cases h
  | done x => cases h

/-- Each step keeps what the state holds clean. -/
theorem clean_advance {c : Char} {state next : State} (hstate : state.Clean)
    (h : Advance c state next) : next.Clean := by
  induction h with
  | space => exact hstate
  | across _ hacross => exact clean_across hstate hacross
  | letter => exact hstate
  | lastLetter => exact clean_deliver hstate.1 hstate.2
  | digit htake => exact ⟨fits_of_numeral_take? htake, hstate.2⟩
  | behindNumber _ hfinish _ ih =>
    exact ih (clean_deliver (clean_of_numeral_finish hstate.1 hfinish) hstate.2)
  | quoted => exact hstate
  | endQuote => exact clean_close hstate.1 hstate.2 _

/-! ## Texts -/

theorem clean_of_finishGap {gap : Gap} {x : Json} (hgap : gap.Clean)
    (h : finishGap gap = .ok x) : x.Clean := by
  cases gap with
  | done y =>
    cases h
    exact hgap
  | _ => cases h

theorem clean_of_finish {state : State} {x : Json} (hstate : state.Clean)
    (h : finish state = .ok x) : x.Clean := by
  cases state with
  | gap gap => exact clean_of_finishGap hstate h
  | literal letter letters value frames => cases h
  | number numeral frames =>
    simp only [finish] at h
    split at h
    · next n hfinish =>
      exact clean_of_finishGap (clean_deliver (clean_of_numeral_finish hstate.1 hfinish) hstate.2) h
    · cases h
  | string quotation role frames => cases h

/-- A run from a state that holds clean values ends with a clean one. -/
theorem clean_of_run {state : State} {cs : List Char} {x : Json} (hstate : state.Clean)
    (h : run state cs = .ok x) : x.Clean := by
  induction cs generalizing state with
  | nil => exact clean_of_finish hstate (run_nil_eq_ok_iff.mp h)
  | cons c rest ih =>
    obtain ⟨next, hadvance, hrest⟩ := run_cons_eq_ok_iff.mp h
    exact ih (clean_advance hstate hadvance) hrest

end Reader

/-- The value of a text is clean. -/
theorem clean_of_parse {s : String} {x : Json} (h : parse s = .ok x) : x.Clean := by
  have hstart : (Reader.State.gap (.value [])).Clean := List.forall_mem_nil _
  exact Reader.clean_of_run hstart (parse_eq_ok_iff.mp h)

end JsonEdit.Json
