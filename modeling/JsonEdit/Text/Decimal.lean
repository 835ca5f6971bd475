/-!
# Decimal numerals

The shortest decimal form of a natural number, and the numerals that are such a
form.  Reading a numeral and writing a number are inverse to each other.
-/

namespace JsonEdit.Text

/-- The shortest decimal form of a natural number. -/
def decimal (n : Nat) : List Char := Nat.toDigits 10 n

/-- The number that a list of decimal digits stands for. -/
def decimalValue (digits : List Char) : Nat := Nat.ofDigitChars 10 digits 0

/-- Whether a text is the shortest decimal form of some number: digits alone, at
least one, and no zero in front of another digit. -/
def isDecimal : List Char → Bool
  | [] => false
  | ['0'] => true
  | '0' :: _ => false
  | digits => digits.all Char.isDigit

@[simp]
theorem decimalValue_decimal (n : Nat) : decimalValue (decimal n) = n :=
  Nat.ofDigitChars_toDigits (by decide) (by decide)

/-- More digits do not make a number smaller. -/
theorem le_ofDigitChars (digits : List Char) (n : Nat) : n ≤ Nat.ofDigitChars 10 digits n := by
  rw [Nat.ofDigitChars_eq_ofDigitChars_zero]
  exact Nat.le_add_right_of_le (Nat.le_mul_of_pos_left n (Nat.pow_pos (by decide)))

theorem decimal_ne_nil (n : Nat) : decimal n ≠ [] := Nat.toDigits_ne_nil

theorem isDigit_of_mem_decimal {n : Nat} {c : Char} (h : c ∈ decimal n) : c.isDigit = true :=
  Nat.isDigit_of_mem_toDigits (by decide) (by decide) h

/-- The form of a positive number does not begin with a zero. -/
theorem head?_decimal_ne_zero {n : Nat} (hn : 0 < n) : (decimal n).head? ≠ some '0' := by
  induction n using Nat.strongRecOn with
  | ind n ih =>
    by_cases hsmall : n < 10
    · rw [decimal, Nat.toDigits_of_lt_base hsmall]
      simp
      omega
    · have hsplit : decimal n = decimal (n / 10) ++ [(n % 10).digitChar] :=
        Nat.toDigits_of_base_le (by decide) (Nat.le_of_not_lt hsmall)
      obtain ⟨c, digits, hfront⟩ := List.exists_cons_of_ne_nil (decimal_ne_nil (n / 10))
      have hhead := ih (n / 10) (by omega) (by omega)
      rw [hfront, List.head?_cons] at hhead
      rwa [hsplit, hfront, List.cons_append, List.head?_cons]

/-- A digit is the shortest decimal form of its value. -/
theorem decimal_digit {c : Char} (hdigit : c.isDigit = true) : decimal (c.toNat - 48) = [c] := by
  have hrange : 48 ≤ c.toNat ∧ c.toNat ≤ 57 := Char.isDigit_iff_toNat.mp hdigit
  rw [decimal, Nat.toDigits_of_lt_base (by omega)]
  have hvalue : (c.toNat - 48).digitChar.toNat = c.toNat := by
    rw [Nat.toNat_digitChar_of_lt_ten (by omega)]
    omega
  rw [← Char.ofNat_toNat (c.toNat - 48).digitChar, hvalue, Char.ofNat_toNat]

/-- Digits behind the form of a positive number lengthen it to the form of the number
that all the digits stand for. -/
theorem decimal_append {digits : List Char} (hdigits : digits.all Char.isDigit = true)
    {n : Nat} (hn : 0 < n) :
    decimal n ++ digits = decimal (Nat.ofDigitChars 10 digits n) := by
  induction digits generalizing n with
  | nil => simp
  | cons c rest ih =>
    rw [List.all_cons, Bool.and_eq_true] at hdigits
    obtain ⟨hdigit, hrest⟩ := hdigits
    have hrange : 48 ≤ c.toNat ∧ c.toNat ≤ 57 := Char.isDigit_iff_toNat.mp hdigit
    have hone : decimal n ++ [c] = decimal (10 * n + (c.toNat - 48)) := by
      rw [← decimal_digit hdigit]
      exact Nat.toDigits_append_toDigits (by decide) hn (by omega)
    rw [Nat.ofDigitChars_cons, List.append_cons, hone]
    exact ih hrest (by omega)

/-- A numeral without a zero in front of another digit is the form of its value. -/
theorem decimal_decimalValue {digits : List Char} (h : isDecimal digits = true) :
    decimal (decimalValue digits) = digits := by
  unfold isDecimal at h
  split at h
  · simp at h
  · rfl
  · simp at h
  · rename_i hnil hzero hlead
    obtain _ | ⟨c, rest⟩ := digits
    · exact absurd rfl hnil
    · rw [List.all_cons, Bool.and_eq_true] at h
      obtain ⟨hdigit, hrest⟩ := h
      have hne : c ≠ '0' := fun hc => hlead rest (by rw [hc])
      have hrange : 48 ≤ c.toNat ∧ c.toNat ≤ 57 := Char.isDigit_iff_toNat.mp hdigit
      have hpos : 0 < c.toNat - 48 := by
        have hcode : c.toNat ≠ 48 := fun hcode => hne (by
          rw [← Char.ofNat_toNat c, hcode])
        omega
      rw [decimalValue, Nat.ofDigitChars_cons]
      change decimal (Nat.ofDigitChars 10 rest (10 * 0 + (c.toNat - 48))) = c :: rest
      rw [Nat.mul_zero, Nat.zero_add, ← decimal_append hrest hpos, decimal_digit hdigit]
      rfl

/-- The decimal form of an integer: a minus sign if it is negative, then the form
of its magnitude. -/
def decimalInt : Int → List Char
  | .ofNat n => decimal n
  | .negSucc n => '-' :: decimal (n + 1)

end JsonEdit.Text
