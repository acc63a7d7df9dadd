import Mathlib.Data.Nat.Digits.Defs
import Mathlib.Tactic.IntervalCases

/-!
# Numbers in names

Decimal numbers filled with zeros to a width. A name that ends in such a number
determines it.
-/

namespace Foundation

/-- A digit as a character. -/
def digitChar (digit : ℕ) : Char := Char.ofNat (48 + digit)

/-- A number in decimal, filled with zeros from the left; `width` is positive. -/
def decimal (width n : ℕ) : List Char :=
  ((Nat.digits 10 n ++ List.replicate (width - (Nat.digits 10 n).length) 0).map digitChar).reverse

theorem digitChar_spec {digit : ℕ} (h : digit < 10) :
    (digitChar digit).isDigit = true ∧ (digitChar digit).toNat - 48 = digit := by
  interval_cases digit <;> decide

section Decimal

variable {width n m : ℕ}

theorem digit_lt {digit : ℕ}
    (h : digit ∈ Nat.digits 10 n ++ List.replicate (width - (Nat.digits 10 n).length) 0) :
    digit < 10 := by
  rcases List.mem_append.mp h with hdigit | hzero
  · exact Nat.digits_lt_base (by norm_num) hdigit
  · rw [List.eq_of_mem_replicate hzero]
    norm_num

theorem isDigit_of_mem_decimal {c : Char} (h : c ∈ decimal width n) : c.isDigit = true := by
  rw [decimal, List.mem_reverse] at h
  obtain ⟨digit, hdigit, rfl⟩ := List.mem_map.mp h
  exact (digitChar_spec (digit_lt hdigit)).1

/-- The number is read back from its characters. -/
theorem ofDigits_decimal (width n : ℕ) :
    Nat.ofDigits 10 ((decimal width n).reverse.map fun c => c.toNat - 48) = n := by
  have hback : (decimal width n).reverse.map (fun c => c.toNat - 48) =
      Nat.digits 10 n ++ List.replicate (width - (Nat.digits 10 n).length) 0 := by
    rw [decimal, List.reverse_reverse, List.map_map]
    exact (List.map_congr_left fun digit hdigit => (digitChar_spec (digit_lt hdigit)).2).trans
      (List.map_id _)
  rw [hback, Nat.ofDigits_append_replicate_zero, Nat.ofDigits_digits]

/-- The digits at the end of a name. -/
theorem takeWhile_decimal {mark : Char} (hmark : mark.isDigit = false) (front : List Char) :
    (front ++ mark :: decimal width n).reverse.takeWhile Char.isDigit =
      (decimal width n).reverse := by
  have hdigits : ∀ c ∈ (decimal width n).reverse, c.isDigit = true := fun c hc =>
    isDigit_of_mem_decimal (List.mem_reverse.mp hc)
  rw [List.reverse_append, List.reverse_cons, List.append_assoc,
    List.takeWhile_append_of_pos hdigits, List.singleton_append, List.takeWhile_cons_of_neg
      (by rw [hmark]; exact Bool.false_ne_true), List.append_nil]

/-- Names that end in a mark and a number are equal for equal numbers only. -/
theorem decimal_of_append_eq {mark : Char} (hmark : mark.isDigit = false) {front front' : List Char}
    (h : front ++ mark :: decimal width n = front' ++ mark :: decimal width m) : n = m := by
  have hdigits := congrArg (fun name : List Char => name.reverse.takeWhile Char.isDigit) h
  simp only [takeWhile_decimal hmark] at hdigits
  rw [← ofDigits_decimal width n, hdigits, ofDigits_decimal]

end Decimal

end Foundation
