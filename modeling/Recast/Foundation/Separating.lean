import Mathlib.Data.List.Basic
import Mathlib.Logic.Function.Basic

/-!
# Folds that separate words

A left fold whose step is injective in the state carries a difference of the
state to the end. If the step is also injective in the symbol, two words that
differ in one symbol have different folds.
-/

namespace Foundation

variable {σ α : Type*} {step : σ → α → σ}

theorem foldl_injective (hstate : ∀ symbol, Function.Injective fun state => step state symbol)
    (word : List α) : Function.Injective fun state => word.foldl step state := by
  induction word with
  | nil => exact Function.injective_id
  | cons symbol rest ih => exact ih.comp (hstate symbol)

/-- One changed symbol changes the fold, at any place in a word of any length. -/
theorem foldl_ne_of_one_symbol
    (hstate : ∀ symbol, Function.Injective fun state => step state symbol)
    (hsymbol : ∀ state, Function.Injective (step state)) (start : σ) (before after : List α)
    {symbol symbol' : α} (hne : symbol ≠ symbol') :
    (before ++ symbol :: after).foldl step start ≠ (before ++ symbol' :: after).foldl step start := by
  intro heq
  rw [List.foldl_append, List.foldl_append, List.foldl_cons, List.foldl_cons] at heq
  exact hne (hsymbol _ (foldl_injective hstate after heq))

end Foundation
