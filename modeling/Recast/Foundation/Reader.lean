import Recast.Foundation.Except
import Recast.Foundation.LittleEndian

/-!
# Sequential readers

A reader takes bytes from the front of its input. `Reads reader bytes value`
says that the reader, wherever `bytes` stand, takes exactly them and returns
`value`; a format is read back by following how it was written.
-/

namespace Foundation

/-- A parser over bytes with errors in `ε`. -/
abbrev Reader (ε α : Type) := StateT (List UInt8) (Except ε) α

namespace Reader

variable {ε α β : Type}

/-- Throw an error. -/
def fail (error : ε) : Reader ε α := fun _ => .error error

/-- Go on with an outcome computed elsewhere. -/
def ofExcept (outcome : Except ε α) : Reader ε α := fun input => do
  let value ← outcome
  .ok (value, input)

/-- The next `width` bytes as a number, least significant first. -/
def number (truncated : ε) (width : Nat) : Reader ε Nat := fun input =>
  if input.length < width then .error truncated
  else .ok (ofLittleEndian (input.take width), input.drop width)

/-- `count` values, one after the other. -/
def many (reader : Reader ε α) : Nat → Reader ε (List α)
  | 0 => pure []
  | count + 1 => do
      let value ← reader
      let values ← many reader count
      pure (value :: values)

/-- The reader takes exactly `bytes` and returns `value`. -/
def Reads (reader : Reader ε α) (bytes : List UInt8) (value : α) : Prop :=
  ∀ rest, reader (bytes ++ rest) = .ok (value, rest)

/-! ### What a reader that returned has done -/

theorem bind_run_eq_ok {reader : Reader ε α} {next : α → Reader ε β} {input rest : List UInt8}
    {result : β} : (reader >>= next) input = .ok (result, rest) ↔
      ∃ value middle, reader input = .ok (value, middle) ∧
        next value middle = .ok (result, rest) := by
  change (do let pair ← reader input; next pair.1 pair.2) = _ ↔ _
  rw [bind_eq_ok, Prod.exists]

theorem pure_run_eq_ok {value result : α} {input rest : List UInt8} :
    (pure value : Reader ε α) input = .ok (result, rest) ↔ value = result ∧ input = rest := by
  change Except.ok (value, input) = _ ↔ _
  rw [Except.ok.injEq, Prod.mk.injEq]

theorem ofExcept_run_eq_ok {outcome : Except ε α} {value : α} {input rest : List UInt8} :
    ofExcept outcome input = .ok (value, rest) ↔ outcome = .ok value ∧ input = rest := by
  cases outcome with
  | error error => simp [ofExcept]
  | ok value' => simp [ofExcept]

/-- A check that throws: the reader returned, so the check passed. -/
theorem guard_run_eq_ok {c : Prop} [Decidable c] {error : ε} {reader : Reader ε α}
    {input : List UInt8} {outcome : α × List UInt8} :
    (if c then fail error else reader) input = .ok outcome ↔ ¬c ∧ reader input = .ok outcome := by
  split
  next h => simp [h, fail]
  next h => simp [h]

theorem number_run_eq_ok {truncated : ε} {width n : Nat} {input rest : List UInt8} :
    number truncated width input = .ok (n, rest) ↔
      width ≤ input.length ∧ n = ofLittleEndian (input.take width) ∧ rest = input.drop width := by
  rw [number, guard_eq_ok, Except.ok.injEq, Prod.mk.injEq, Nat.not_lt, eq_comm (a := n),
    eq_comm (a := rest)]

/-- A number is below the range of its width. -/
theorem number_lt {truncated : ε} {width n : Nat} {input rest : List UInt8}
    (h : number truncated width input = .ok (n, rest)) : n < 256 ^ width := by
  obtain ⟨hle, rfl, -⟩ := number_run_eq_ok.mp h
  have hlt := ofLittleEndian_lt (input.take width)
  rwa [List.length_take_of_le hle] at hlt

/-- What every value has that a repeated reader returns. -/
theorem many_forall {reader : Reader ε α} {P : α → Prop}
    (hreader : ∀ input value rest, reader input = .ok (value, rest) → P value) {count : Nat}
    {input rest : List UInt8} {values : List α}
    (h : many reader count input = .ok (values, rest)) : ∀ value ∈ values, P value := by
  induction count generalizing input rest values with
  | zero =>
      obtain ⟨rfl, -⟩ := pure_run_eq_ok.mp h
      simp
  | succ count ih =>
      obtain ⟨value, middle, hvalue, h⟩ := bind_run_eq_ok.mp h
      obtain ⟨others, last, hothers, h⟩ := bind_run_eq_ok.mp h
      obtain ⟨rfl, -⟩ := pure_run_eq_ok.mp h
      exact List.forall_mem_cons.mpr ⟨hreader _ _ _ hvalue, ih hothers⟩

/-! ### Reading back -/

theorem reads_pure (value : α) : Reads (pure value : Reader ε α) [] value := fun _ => rfl

theorem Reads.bind {reader : Reader ε α} {next : α → Reader ε β} {first second : List UInt8}
    {value : α} {result : β} (hfirst : Reads reader first value)
    (hsecond : Reads (next value) second result) :
    Reads (reader >>= next) (first ++ second) result := by
  intro rest
  change (do let pair ← reader (first ++ second ++ rest); next pair.1 pair.2) = _
  rw [List.append_assoc, hfirst]
  exact hsecond rest

/-- A step that reads nothing. -/
theorem Reads.skip {reader : Reader ε α} {next : α → Reader ε β} {bytes : List UInt8}
    {value : α} {result : β} (hfirst : Reads reader [] value)
    (hsecond : Reads (next value) bytes result) : Reads (reader >>= next) bytes result :=
  Reads.bind hfirst hsecond

/-- A last step that reads nothing. -/
theorem Reads.finish {reader : Reader ε α} {next : α → Reader ε β} {bytes : List UInt8}
    {value : α} {result : β} (hfirst : Reads reader bytes value)
    (hsecond : Reads (next value) [] result) : Reads (reader >>= next) bytes result := by
  rw [← List.append_nil bytes]
  exact Reads.bind hfirst hsecond

theorem reads_ofExcept {outcome : Except ε α} {value : α} (h : outcome = .ok value) :
    Reads (ofExcept outcome) [] value := by
  intro rest
  rw [ofExcept, h]
  rfl

/-- A check that passes. -/
theorem Reads.guard {c : Prop} [Decidable c] {error : ε} {reader : Reader ε α}
    {bytes : List UInt8} {value : α} (hc : ¬c) (h : Reads reader bytes value) :
    Reads (if c then fail error else reader) bytes value := by
  rwa [if_neg hc]

theorem reads_number (truncated : ε) {width n : Nat} (h : n < 256 ^ width) :
    Reads (number truncated width) (toLittleEndian width n) n := by
  intro rest
  have hlength := length_toLittleEndian width n
  rw [number, if_neg (by simp), List.take_left' hlength, List.drop_left' hlength,
    ofLittleEndian_toLittleEndian h]

theorem Reads.many {reader : Reader ε α} {encode : α → List UInt8} {values : List α}
    (h : ∀ value ∈ values, Reads reader (encode value) value) :
    Reads (many reader values.length) (values.flatMap encode) values := by
  induction values with
  | nil => exact reads_pure []
  | cons value values ih =>
      obtain ⟨hvalue, hvalues⟩ := List.forall_mem_cons.mp h
      rw [List.flatMap_cons, List.length_cons, Reader.many]
      exact hvalue.bind (Reads.finish (ih hvalues) (reads_pure (value :: values)))

theorem Reads.map {reader : Reader ε α} {bytes : List UInt8} {value : α} (f : α → β)
    (h : Reads reader bytes value) : Reads (f <$> reader) bytes (f value) := by
  intro rest
  change (f <$> reader).run (bytes ++ rest) = _
  rw [StateT.run_map]
  change (fun p => (f p.1, p.2)) <$> reader (bytes ++ rest) = _
  rw [h rest]
  rfl

end Reader

end Foundation
