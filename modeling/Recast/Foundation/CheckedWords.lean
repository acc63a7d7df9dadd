import Recast.Foundation.Reader

/-!
# Checked words

Arithmetic on 64-bit words that says when a result is not defined or wraps, and
how a computation that checks its arithmetic compares with one that does not:
step by step it is the same, with the errors embedded among the faults.
-/

namespace Foundation

section Words

variable {ε : Type} (fault : ε)

/-- `a + b`. -/
def addWord (a b : ℕ) : Except ε ℕ := if a + b < 2 ^ 64 then .ok (a + b) else .error fault

/-- `a - b`. -/
def subWord (a b : ℕ) : Except ε ℕ := if b ≤ a then .ok (a - b) else .error fault

/-- `a * b`. -/
def mulWord (a b : ℕ) : Except ε ℕ := if a * b < 2 ^ 64 then .ok (a * b) else .error fault

/-- `size_t{1} << amount`, defined for amounts below the width. -/
def shiftOne (amount : ℕ) : Except ε ℕ :=
  if amount < 64 then .ok (2 ^ amount) else .error fault

/-- `count` increments of a counter, from `start` on. -/
def countWords (start : ℕ) : ℕ → Except ε ℕ
  | 0 => .ok start
  | count + 1 => do
      let next ← addWord fault start 1
      countWords next count

variable {fault} {a b : ℕ}

theorem addWord_eq_ok (h : a + b < 2 ^ 64) : addWord fault a b = .ok (a + b) := if_pos h

theorem subWord_eq_ok (h : b ≤ a) : subWord fault a b = .ok (a - b) := if_pos h

theorem mulWord_eq_ok (h : a * b < 2 ^ 64) : mulWord fault a b = .ok (a * b) := if_pos h

theorem shiftOne_eq_ok (h : a < 64) : shiftOne fault a = .ok (2 ^ a) := if_pos h

theorem countWords_eq_ok {start count : ℕ} (h : start + count < 2 ^ 64) :
    countWords fault start count = .ok (start + count) := by
  induction count generalizing start with
  | zero => rfl
  | succ count ih =>
      rw [countWords, addWord_eq_ok (by omega), ok_bind, ih (by omega), Nat.add_right_comm,
        Nat.add_assoc]

end Words

/-! ### Embedding the errors -/

variable {ε δ α β : Type} {embed : ε → δ}

@[simp] theorem mapError_ok (value : α) :
    (Except.ok value : Except ε α).mapError embed = .ok value := rfl

@[simp] theorem mapError_error (error : ε) :
    (Except.error error : Except ε α).mapError embed = .error (embed error) := rfl

/-- A step and the steps after it, when what the step returned is known. -/
theorem bind_eq_mapError {x : Except ε α} {f : α → Except ε β} {f' : α → Except δ β}
    (h : ∀ a, x = .ok a → f' a = (f a).mapError embed) :
    (x.mapError embed >>= f') = (x >>= f).mapError embed := by
  cases x with
  | error error => rfl
  | ok a => exact h a rfl

theorem guard_eq_mapError {c : Prop} [Decidable c] {error : ε} {x : Except ε α}
    {x' : Except δ α} (h : ¬c → x' = x.mapError embed) :
    (if c then .error (embed error) else x') = (if c then .error error else x).mapError embed := by
  split
  next => rfl
  next hc => exact h hc

theorem mapM_eq_mapError {f : α → Except ε β} {f' : α → Except δ β} {xs : List α}
    (h : ∀ x ∈ xs, f' x = (f x).mapError embed) :
    xs.mapM f' = (xs.mapM f).mapError embed := by
  induction xs with
  | nil => rfl
  | cons x xs ih =>
      rw [mapM_cons_except, mapM_cons_except, h x List.mem_cons_self,
        ih fun y hy => h y (List.mem_cons_of_mem x hy)]
      exact bind_eq_mapError fun y _ => bind_eq_mapError fun ys _ => rfl

namespace Reader

/-- The reader, with its errors embedded. -/
def lift (embed : ε → δ) (reader : Reader ε α) : Reader δ α := fun input =>
  (reader input).mapError embed

variable {input : List UInt8}

/-- A read and what follows it, when what was read is known. -/
theorem bind_eq_lift {reader : Reader ε α} {reader' : Reader δ α} {next : α → Reader ε β}
    {next' : α → Reader δ β} (hreader : reader' input = lift embed reader input)
    (hnext : ∀ value rest, reader input = .ok (value, rest) →
      next' value rest = lift embed (next value) rest) :
    (reader' >>= next') input = lift embed (reader >>= next) input := by
  change (do let pair ← reader' input; next' pair.1 pair.2) =
    (do let pair ← reader input; next pair.1 pair.2).mapError embed
  rw [hreader]
  exact bind_eq_mapError fun pair hpair => hnext pair.1 pair.2 hpair

theorem lift_bind_run {reader : Reader ε α} {value : α} {rest : List UInt8}
    (h : reader input = .ok (value, rest)) (next : α → Reader δ β) :
    (lift embed reader >>= next) input = next value rest := by
  change (do let pair ← (reader input).mapError embed; next pair.1 pair.2) = _
  rw [h]
  rfl

/-- A step of checked arithmetic, which the reader without checks does not have. -/
theorem ofExcept_bind_eq {outcome : Except δ α} {value : α} (h : outcome = .ok value)
    (next : α → Reader δ β) (input : List UInt8) :
    (ofExcept outcome >>= next) input = next value input := by
  subst h
  rfl

theorem lift_ofExcept_bind_eq {outcome : Except ε α} {value : α} (h : outcome = .ok value)
    (next : α → Reader ε β) (input : List UInt8) :
    lift embed (ofExcept outcome >>= next) input = lift embed (next value) input := by
  subst h
  rfl

theorem ofExcept_eq_lift {outcome : Except ε α} {outcome' : Except δ α}
    (h : outcome' = outcome.mapError embed) (input : List UInt8) :
    ofExcept outcome' input = lift embed (ofExcept outcome) input := by
  subst h
  cases outcome <;> rfl

theorem guard_eq_lift {c : Prop} [Decidable c] {error : ε} {reader : Reader ε α}
    {reader' : Reader δ α} (h : ¬c → reader' input = lift embed reader input) :
    (if c then fail (embed error) else reader') input =
      lift embed (if c then fail error else reader) input := by
  split
  next => rfl
  next hc => exact h hc

/-- What was read stood at the front of the input. -/
theorem number_run_split {truncated : ε} {width n : ℕ} {rest : List UInt8}
    (h : number truncated width input = .ok (n, rest)) :
    input = toLittleEndian width n ++ rest := by
  obtain ⟨hle, rfl, rfl⟩ := number_run_eq_ok.mp h
  have hbytes := toLittleEndian_ofLittleEndian (input.take width)
  rw [List.length_take_of_le hle] at hbytes
  rw [hbytes, List.take_append_drop]

end Reader

end Foundation
