import JsonEdit.Proofs.Pointer.Canonical

/-!
# What a segment stands for

Digits make an index as long as a word of 64 bits holds their number; with one more they make a
name.  Whatever a segment is taken for, the member that it leads to in an object is the one whose
name it spells: an index is printed there as the digits that it was read from.

There are three groups.

* Words.  `readWord?` reads digits into a word, and `readWord?_eq_some_iff` says that it gives up
  exactly if the number of all the digits is too great, at whichever digit that shows.
* The three kinds.  A segment is of one kind only, so `classify_cases` gives a condition for each.
* Classification.  `classify_is_exact` is the assembly.
-/

namespace JsonEdit

namespace Text

/-! ## Words -/

/-- A word of 64 bits with one more digit behind its number, if a word holds the number that
they make. -/
def pushDigit? (word : UInt64) (digit : Char) : Option UInt64 :=
  let value := 10 * word.toNat + (digit.toNat - '0'.toNat)
  if value < UInt64.size then some (UInt64.ofNat value) else none

/-- Reads digits into a word one by one, until the word overflows. -/
def readWord? (digits : List Char) : Option UInt64 := digits.foldlM pushDigit? 0

theorem pushDigit?_eq_some_iff {word next : UInt64} {digit : Char} :
    pushDigit? word digit = some next ↔
      next.toNat = 10 * word.toNat + (digit.toNat - '0'.toNat) := by
  rw [pushDigit?]
  split
  · next hfits =>
    rw [Option.some.injEq, ← UInt64.toNat_inj, UInt64.toNat_ofNat_of_lt' hfits, eq_comm]
  · next hoverflow =>
    refine iff_of_false (by simp) fun h => hoverflow ?_
    rw [← h]
    exact UInt64.toNat_lt_size next

theorem pushDigit?_eq_none_iff {word : UInt64} {digit : Char} :
    pushDigit? word digit = none ↔
      UInt64.size ≤ 10 * word.toNat + (digit.toNat - '0'.toNat) := by
  simp [pushDigit?]

/-- A word that digits are read into behind another number holds the number that they all make.
Once the number has left the words, no further digit brings it back. -/
theorem foldlM_pushDigit?_eq_some_iff {digits : List Char} {word next : UInt64} :
    digits.foldlM pushDigit? word = some next ↔
      next.toNat = Nat.ofDigitChars 10 digits word.toNat := by
  induction digits generalizing word with
  | nil =>
    rw [List.foldlM_nil, Nat.ofDigitChars_nil, UInt64.toNat_inj, Option.pure_def,
      Option.some.injEq, eq_comm]
  | cons digit rest ih =>
    rw [List.foldlM_cons, Nat.ofDigitChars_cons]
    cases hstep : pushDigit? word digit with
    | some pushed =>
      rw [← pushDigit?_eq_some_iff.mp hstep]
      exact ih
    | none =>
      have hgrows := le_ofDigitChars rest (10 * word.toNat + (digit.toNat - '0'.toNat))
      have hoverflow := pushDigit?_eq_none_iff.mp hstep
      have hword := UInt64.toNat_lt_size next
      refine iff_of_false (by simp) fun h => ?_
      omega

/-- Digits are read into a word exactly if it holds their number. -/
theorem readWord?_eq_some_iff {digits : List Char} {word : UInt64} :
    readWord? digits = some word ↔ word.toNat = decimalValue digits :=
  foldlM_pushDigit?_eq_some_iff

end Text

namespace Step

open Pointer

/-! ## The three kinds -/

theorem le_greatestIndex_iff {n : Nat} : n ≤ greatestIndex ↔ n < UInt64.size := by
  rw [greatestIndex, UInt64.size]
  omega

theorem classify_eq_index_iff {segment : List Char} {n : Nat} :
    classify segment = index n ↔ segment = Text.decimal n ∧ n < UInt64.size := by
  rw [← le_greatestIndex_iff]
  constructor
  · intro h
    rcases classify_cases segment with ⟨-, hend⟩ | ⟨m, hm, hdecimal, hindex⟩ | ⟨-, hkey⟩
    · simp [hend] at h
    · obtain rfl : m = n := by simpa [hindex] using h
      exact ⟨hdecimal, hm⟩
    · simp [hkey] at h
  · intro h
    rw [h.1]
    exact classify_decimal h.2

theorem classify_eq_pastEnd_iff {segment : List Char} :
    classify segment = pastEnd ↔ segment = ['-'] := by
  constructor
  · intro h
    rcases classify_cases segment with ⟨hhyphen, -⟩ | ⟨m, -, -, hindex⟩ | ⟨-, hkey⟩
    · exact hhyphen
    · simp [hindex] at h
    · simp [hkey] at h
  · intro h
    rw [h]
    rfl

theorem classify_eq_key_iff {segment : List Char} {name : String} :
    classify segment = key name ↔
      ¬ Reserved segment ∧ name = String.ofList (unescape segment) := by
  constructor
  · intro h
    rcases classify_cases segment with ⟨-, hend⟩ | ⟨m, -, -, hindex⟩ | ⟨hname, hkey⟩
    · simp [hend] at h
    · simp [hindex] at h
    · exact ⟨hname, by simpa [hkey, eq_comm] using h⟩
  · intro h
    rw [h.2]
    exact classify_of_not_reserved h.1

/-- A segment is an index exactly if it is a numeral and can be read into a word. -/
theorem classify_eq_index_toNat_iff {segment : List Char} {word : UInt64} :
    classify segment = index word.toNat ↔
      Text.isDecimal segment = true ∧ Text.readWord? segment = some word := by
  rw [classify_eq_index_iff, Text.readWord?_eq_some_iff]
  constructor
  · intro h
    rw [h.1, Text.decimalValue_decimal]
    exact ⟨Text.isDecimal_decimal _, rfl⟩
  · intro h
    have hsegment : segment = Text.decimal word.toNat := by
      rw [h.2, Text.decimal_decimalValue h.1]
    exact ⟨hsegment, UInt64.toNat_lt_size word⟩

/-- A numeral that is too great for a word stands for a name. -/
theorem not_reserved_decimal {n : Nat} (hn : UInt64.size ≤ n) : ¬ Reserved (Text.decimal n) := by
  intro h
  rcases h with hhyphen | ⟨m, hm, hdecimal⟩
  · exact decimal_ne_hyphen n hhyphen
  · have hvalue : n = m := by
      rw [← Text.decimalValue_decimal n, hdecimal, Text.decimalValue_decimal]
    rw [le_greatestIndex_iff] at hm
    omega

theorem not_reserved_iff {segment : List Char} :
    ¬ Reserved segment ↔
      segment ≠ ['-'] ∧ ¬ ∃ n < UInt64.size, segment = Text.decimal n := by
  simp only [Reserved, le_greatestIndex_iff, not_or, ne_eq]

/-! ## Classification -/

/-- A segment is an index exactly if it is the shortest decimal form of a number below `2 ^ 64`,
that is, a numeral that can be read into a word of 64 bits.  It is the place behind the last item
exactly if it is a hyphen, and otherwise the name that it stands for, which for a greater numeral
is the numeral itself.  Unless it is a hyphen, it leads to the member with the name that it stands
for, also as an index. -/
theorem classify_is_exact (segment : List Char) :
    (∀ n, classify segment = index n ↔ segment = Text.decimal n ∧ n < UInt64.size) ∧
      (∀ word : UInt64, classify segment = index word.toNat ↔
        Text.isDecimal segment = true ∧ Text.readWord? segment = some word) ∧
      (classify segment = pastEnd ↔ segment = ['-']) ∧
      (∀ name, classify segment = key name ↔
        (segment ≠ ['-'] ∧ ¬ ∃ n < UInt64.size, segment = Text.decimal n) ∧
          name = String.ofList (unescape segment)) ∧
      (∀ n, UInt64.size ≤ n → segment = Text.decimal n →
        classify segment = key (String.ofList segment)) ∧
      (segment ≠ ['-'] →
        (classify segment).asKey? = some (String.ofList (unescape segment))) := by
  refine ⟨fun n => classify_eq_index_iff, fun word => classify_eq_index_toNat_iff,
    classify_eq_pastEnd_iff, ?_, ?_, asKey?_classify⟩
  · intro name
    rw [classify_eq_key_iff, not_reserved_iff]
  · intro n hn hdecimal
    rw [hdecimal, classify_of_not_reserved (not_reserved_decimal hn),
      unescape_of_plain (plain_decimal n)]

/-- The least numeral that is too great for a word, and the greatest that is not. -/
theorem classify_is_exact_on_both_sides :
    UInt64.size ≤ 18446744073709551616 ∧
      "18446744073709551616".toList = Text.decimal 18446744073709551616 ∧
      classify "18446744073709551616".toList = key "18446744073709551616" ∧
      "18446744073709551615".toList ≠ ['-'] ∧
      classify "18446744073709551615".toList = index 18446744073709551615 ∧
      (classify "18446744073709551615".toList).asKey? = some "18446744073709551615" := by
  have hbound : UInt64.size ≤ 18446744073709551616 := Nat.le_refl _
  have hdecimal : "18446744073709551616".toList = Text.decimal 18446744073709551616 := rfl
  have hne : "18446744073709551615".toList ≠ ['-'] := by decide
  obtain ⟨-, -, -, -, hgreater, -⟩ := classify_is_exact "18446744073709551616".toList
  obtain ⟨hindex, -, -, -, -, hname⟩ := classify_is_exact "18446744073709551615".toList
  exact ⟨hbound, hdecimal, hgreater _ hbound hdecimal, hne, (hindex _).mpr ⟨rfl, by decide⟩,
    hname hne⟩

end Step

end JsonEdit
