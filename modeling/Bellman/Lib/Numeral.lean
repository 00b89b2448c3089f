/-
Bellman/Lib/Numeral.lean

Decimal numerals of a fixed width, their order and their value.

Numbers that are written with the same number of digits are in the order of
their numerals, whatever follows them: this is why texts made of such fields,
the most significant first, can be compared in place of what they stand for.

    "0987" ++ …  <  "1024" ++ …

Reading a numeral back gives the number, and so does reading a number of any
length that is padded with zeros.
-/
import Mathlib.Data.Nat.Basic
import Mathlib.Data.List.Basic
import Mathlib.Algebra.Group.Nat.Defs

namespace ProgramLogic

/-- The last `k` decimal digits of a number. -/
def numeral : Nat → Nat → List Char
  | 0, _ => []
  | k + 1, n => numeral k (n / 10) ++ [Nat.digitChar (n % 10)]

/-- A number in decimal, with zeros before it up to a width of `k`. -/
def padded (k n : Nat) : List Char := (Nat.toDigits 10 n).leftpad k '0'

variable {k a b n : Nat} {l l' r r' : List Char}

@[simp] theorem numeral_length (k n : Nat) : (numeral k n).length = k := by
  induction k generalizing n with
  | zero => rfl
  | succ k ih => rw [numeral, List.length_append, ih, List.length_singleton]

theorem digitChar_isDigit (h : n < 10) : (Nat.digitChar n).isDigit = true := by
  have hall : ∀ n < 10, (Nat.digitChar n).isDigit = true := by decide
  exact hall n h

theorem digitChar_lt (h : a < b) (hb : b < 10) : Nat.digitChar a < Nat.digitChar b := by
  have hall : ∀ b < 10, ∀ a < b, Nat.digitChar a < Nat.digitChar b := by decide
  exact hall b hb a h

theorem numeral_isDigit (k n : Nat) : (numeral k n).all Char.isDigit = true := by
  induction k generalizing n with
  | zero => rfl
  | succ k ih =>
    rw [numeral, List.all_append, ih]
    simp [digitChar_isDigit (Nat.mod_lt n (Nat.zero_lt_succ 9))]

/-- A numeral begins with a digit. -/
theorem exists_digit (k a : Nat) : ∃ n < 10, ∃ r, numeral (k + 1) a = Nat.digitChar n :: r := by
  induction k generalizing a with
  | zero => exact ⟨a % 10, Nat.mod_lt a (Nat.zero_lt_succ 9), [], rfl⟩
  | succ k ih =>
    obtain ⟨n, hn, r, hr⟩ := ih (a / 10)
    refine ⟨n, hn, r ++ [Nat.digitChar (a % 10)], ?_⟩
    rw [numeral, hr, List.cons_append]

/-- A numeral is read back. -/
theorem ofDigitChars_numeral (h : n < 10 ^ k) : Nat.ofDigitChars 10 (numeral k n) 0 = n := by
  induction k generalizing n with
  | zero =>
    obtain rfl : n = 0 := by simpa using h
    rfl
  | succ k ih =>
    have hn : n / 10 < 10 ^ k := by
      rw [Nat.pow_succ] at h
      omega
    rw [numeral, Nat.ofDigitChars_append, ih hn,
      Nat.ofDigitChars_cons_digitChar_of_lt_ten (Nat.mod_lt n (Nat.zero_lt_succ 9)),
      Nat.ofDigitChars_nil]
    omega

/-! ### Numbers of any length -/

theorem padded_isDigit (k n : Nat) : ∀ c ∈ padded k n, c.isDigit = true := by
  intro c hc
  unfold padded List.leftpad at hc
  rcases List.mem_append.mp hc with hc | hc
  · rw [List.eq_of_mem_replicate hc]
    rfl
  · exact Nat.isDigit_of_mem_toDigits (by decide) (by decide) hc

theorem padded_ne_nil (k n : Nat) : padded k n ≠ [] := by
  intro h
  unfold padded List.leftpad at h
  exact Nat.toDigits_ne_nil (List.append_eq_nil_iff.mp h).2

/-- A padded number is read back. -/
theorem ofDigitChars_padded (k n : Nat) : Nat.ofDigitChars 10 (padded k n) 0 = n := by
  rw [padded, List.leftpad, Nat.ofDigitChars_append, Nat.ofDigitChars_replicate_zero, Nat.mul_zero,
    Nat.ofDigitChars_ten_toDigits]

theorem padded_injective {m : Nat} (h : padded k n = padded k m) : n = m := by
  rw [← ofDigitChars_padded k n, h, ofDigitChars_padded]

/-! ### Order -/

/-- Texts of one length are in order whatever follows them. -/
theorem append_lt_append (hlen : l.length = l'.length) (h : l < l') : l ++ r < l' ++ r' := by
  induction l generalizing l' with
  | nil =>
    obtain rfl := List.length_eq_zero_iff.mp hlen.symm
    exact absurd h (List.not_lt_nil [])
  | cons c l ih =>
    cases l' with
    | nil => cases hlen
    | cons c' l' =>
      rw [List.cons_lt_cons_iff] at h
      rw [List.cons_append, List.cons_append, List.cons_lt_cons_iff]
      rcases h with hlt | ⟨rfl, hlt⟩
      · exact .inl hlt
      · exact .inr ⟨rfl, ih (Nat.succ.inj hlen) hlt⟩

theorem numeral_lt (h : a < b) (hb : b < 10 ^ k) : numeral k a < numeral k b := by
  induction k generalizing a b with
  | zero =>
    obtain rfl : b = 0 := by simpa using hb
    exact absurd h (Nat.not_lt_zero a)
  | succ k ih =>
    have hb' : b / 10 < 10 ^ k := by
      rw [Nat.pow_succ] at hb
      omega
    rw [numeral, numeral]
    by_cases hlt : a / 10 < b / 10
    · exact append_lt_append (by rw [numeral_length, numeral_length]) (ih hlt hb')
    · -- The digits before the last are the same.
      have heq : a / 10 = b / 10 := by omega
      rw [heq]
      apply List.append_left_lt
      rw [List.cons_lt_cons_iff]
      exact .inl (digitChar_lt (by omega) (Nat.mod_lt b (Nat.zero_lt_succ 9)))

/-- The smaller number comes first, whatever follows. -/
theorem numeral_append_lt (h : a < b) (hb : b < 10 ^ k) : numeral k a ++ r < numeral k b ++ r' :=
  append_lt_append (by rw [numeral_length, numeral_length]) (numeral_lt h hb)

end ProgramLogic
