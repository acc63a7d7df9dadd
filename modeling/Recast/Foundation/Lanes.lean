import Mathlib.Data.List.Basic

/-!
# Rows in the lanes of a buffer

A buffer with a fixed number of lanes holds a list when its first lanes read as
the list and all later lanes read as empty.
-/

namespace Foundation

variable {V : Type*}

/-- The lanes read as the rows, followed by empty lanes. -/
structure Lanes (load : Nat → V) (empty : V) (capacity : Nat) (rows : List V) : Prop where
  room : rows.length ≤ capacity
  lane : ∀ row < capacity, load row = rows.getD row empty

namespace Lanes

variable {load load' : Nat → V} {empty : V} {capacity : Nat} {rows rows' : List V}

theorem lane_lt (hlanes : Lanes load empty capacity rows) {row : Nat} (h : row < rows.length) :
    load row = rows[row] := by
  have := hlanes.room
  rw [hlanes.lane row (by omega), List.getD_eq_getElem?_getD, List.getElem?_eq_getElem h]
  rfl

theorem lane_empty (hlanes : Lanes load empty capacity rows) {row : Nat} (h : rows.length ≤ row)
    (hrow : row < capacity) : load row = empty := by
  rw [hlanes.lane row hrow, List.getD_eq_getElem?_getD, List.getElem?_eq_none h]
  rfl

/-- Storing a row in the first empty lane appends it. -/
theorem push (hlanes : Lanes load empty capacity rows) (hroom : rows.length < capacity) {value : V}
    (h : ∀ row < capacity, load' row = if row = rows.length then value else load row) :
    Lanes load' empty capacity (rows ++ [value]) where
  room := by
    rw [List.length_append, List.length_singleton]
    omega
  lane := by
    intro row hrow
    rw [h row hrow, List.getD_eq_getElem?_getD]
    by_cases heq : row = rows.length
    · rw [if_pos heq, heq, List.getElem?_concat_length]
      rfl
    · rw [if_neg heq, hlanes.lane row hrow, List.getD_eq_getElem?_getD]
      by_cases hlt : row < rows.length
      · rw [List.getElem?_append_left hlt]
      · rw [List.getElem?_eq_none (by omega),
          List.getElem?_eq_none (by rw [List.length_append, List.length_singleton]; omega)]

/-- Lanes of pairs hold a list of pairs when each part does. -/
theorem zip {W : Type*} {load₂ : Nat → W} {empty₂ : W} {X : Type*} {join : V → W → X}
    {xs : List X} {fst : X → V} {snd : X → W} (hjoin : ∀ x, join (fst x) (snd x) = x)
    (hfirst : Lanes load empty capacity (xs.map fst))
    (hsecond : Lanes load₂ empty₂ capacity (xs.map snd)) :
    Lanes (fun row => join (load row) (load₂ row)) (join empty empty₂) capacity xs where
  room := by simpa using hfirst.room
  lane := by
    intro row hrow
    rw [hfirst.lane row hrow, hsecond.lane row hrow]
    simp only [List.getD_eq_getElem?_getD, List.getElem?_map]
    cases xs[row]? with
    | none => rfl
    | some x => exact hjoin x

/-- The parts of lanes of pairs. -/
theorem map {W : Type*} (f : V → W) (hlanes : Lanes load empty capacity rows) :
    Lanes (fun row => f (load row)) (f empty) capacity (rows.map f) where
  room := by simpa using hlanes.room
  lane := by
    intro row hrow
    rw [hlanes.lane row hrow]
    simp only [List.getD_eq_getElem?_getD, List.getElem?_map]
    cases rows[row]? <;> rfl

end Lanes

end Foundation
