import Recast.Foundation.Except
import Mathlib.Algebra.BigOperators.Group.List.Basic
import Mathlib.Tactic.Abel

/-!
# Computations that log their calls

A fallible computation with the list of the calls it has made. `Traces` says
that the log of a computation is what a plain computation attempts when an
oracle decides which calls fail. Every call has a cost in some additive monoid;
`Costs` says what a computation returns and what its calls cost together. How a
computation is put together says how its log and its cost are.
-/

namespace Foundation

variable {ε κ α β ι M : Type}

/-- A computation that returns a value and the calls it made, or throws. -/
def Logged (ε κ α : Type) : Type := Except ε (α × List κ)

namespace Logged

instance : Monad (Logged ε κ) where
  pure a := Except.ok (a, [])
  bind x f := Except.bind x fun first =>
    Except.map (fun second => (second.1, first.2 ++ second.2)) (f first.1)

/-- Give up without a call. -/
def fail (error : ε) : Logged ε κ α := Except.error error

/-- A step that makes no call. -/
def quiet (x : Except ε α) : Logged ε κ α := x.map fun a => (a, [])

/-- A step that makes one call, before it returns or throws. -/
def issue (call : κ) (x : Except ε α) : Logged ε κ α := x.map fun a => (a, [call])

/-- What a loop with a result of its own has made, when it returned. -/
def returned (x : α × Except ε Unit) : Except ε α := x.2.map fun _ => x.1

@[simp] theorem returned_ok (a : α) : returned (a, .ok ()) = (.ok a : Except ε α) := rfl

@[simp] theorem returned_error (a : α) (error : ε) : returned (a, .error error) = .error error := rfl

theorem returned_eq_ok {x : α × Except ε Unit} {a : α} (h : x = (a, .ok ())) :
    returned x = .ok a := by
  subst h
  rfl

/-- What a call has left behind and returned, when it returned. -/
def outcome (x : α × Except ε β) : Except ε (α × β) := x.2.map fun b => (x.1, b)

theorem outcome_eq_ok {x : α × Except ε β} {a : α} {b : β} :
    outcome x = .ok (a, b) ↔ x = (a, .ok b) := by
  obtain ⟨a', result⟩ := x
  cases result <;> simp [outcome, Except.map]

theorem outcome_eq_error {x : α × Except ε β} {error : ε} :
    outcome x = .error error ↔ x.2 = .error error := by
  obtain ⟨a, result⟩ := x
  cases result <;> simp [outcome, Except.map]

/-- Run a step on every entry, in order. -/
def mapAll (step : ι → Logged ε κ α) : List ι → Logged ε κ (List α)
  | [] => pure []
  | x :: xs => do
      let a ← step x
      let as ← mapAll step xs
      pure (a :: as)

section Traces

variable {α' β' : Type} {out : α → α'} {out' : β → β'}

/-- Under an oracle that decides which calls fail, `x` logs what `plain`
attempts. Without the log `x` is `plain`; and when a run has returned, another
oracle that fails one of its calls makes it throw, and one that fails none of
them changes nothing. -/
structure Traces (out : α → α') (x : (κ → Bool) → Logged ε κ α)
    (plain : (κ → Bool) → Except ε α') : Prop where
  erase : ∀ faults, Except.map (fun logged => out logged.1) (x faults) = plain faults
  fails : ∀ {faults a calls}, x faults = Except.ok (a, calls) → ∀ {faults' call}, call ∈ calls →
    faults' call = true → ∃ error, x faults' = Except.error error
  returns : ∀ {faults a calls}, x faults = Except.ok (a, calls) → ∀ {faults'},
    (∀ call ∈ calls, faults' call = false) → x faults' = Except.ok (a, calls)

/-- A step that no oracle can disturb logs nothing. -/
theorem traces_quiet_out (out : α → α') (x : Except ε α) :
    Traces out (fun _ : κ → Bool => quiet x) fun _ => x.map out := by
  cases x with
  | error error =>
      exact ⟨fun _ => rfl, fun h => (by cases h), fun h => (by cases h)⟩
  | ok a =>
      refine ⟨fun _ => rfl, fun h _ _ hmem _ => ?_, fun h _ _ => h⟩
      cases h
      cases hmem

theorem traces_quiet (x : Except ε α) : Traces id (fun _ : κ → Bool => quiet x) fun _ => x := by
  have hsame := traces_quiet_out (κ := κ) id x
  rwa [Except.map_id] at hsame

theorem traces_pure (a : α) : Traces id (fun _ => (pure a : Logged ε κ α)) fun _ => .ok a :=
  traces_quiet (.ok a)

theorem traces_fail (error : ε) :
    Traces out (fun _ => (fail error : Logged ε κ α)) fun _ => .error error :=
  traces_quiet_out out (.error error)

/-- A step that throws when its one call fails, and does the same thing whenever
the call succeeds. -/
theorem traces_issue {call : κ} {plain : (κ → Bool) → Except ε α} (error : ε) (rest : Except ε α)
    (h : ∀ faults, plain faults = if faults call then .error error else rest) :
    Traces id (fun faults => issue call (plain faults)) plain := by
  -- a run that returned made the call and did the rest
  have hdone : ∀ {faults a calls}, issue call (plain faults) = Except.ok (a, calls) →
      rest = .ok a ∧ calls = [call] := by
    intro faults a calls hok
    rw [h] at hok
    split at hok
    next => cases hok
    next =>
      cases rest with
      | error error => cases hok
      | ok value =>
          cases hok
          exact ⟨rfl, rfl⟩
  refine ⟨fun faults => ?_, fun hok faults' other hmem hfails => ?_, fun hok faults' hnone => ?_⟩
  · cases hplain : plain faults with
    | error error => rfl
    | ok a => rfl
  · obtain ⟨-, rfl⟩ := hdone hok
    obtain rfl := List.mem_singleton.mp hmem
    rw [h, if_pos hfails]
    exact ⟨error, rfl⟩
  · obtain ⟨rfl, rfl⟩ := hdone hok
    rw [h, hnone call List.mem_cons_self]
    rfl

/-- The second step sees the whole result of the first one, its plain version
only what is kept of it. -/
theorem Traces.bind_out {x : (κ → Bool) → Logged ε κ α} {f : (κ → Bool) → α → Logged ε κ β}
    {plain : (κ → Bool) → Except ε α'} {next : (κ → Bool) → α' → Except ε β'}
    (hx : Traces out x plain)
    (hf : ∀ a, Traces out' (fun faults => f faults a) fun faults => next faults (out a)) :
    Traces out' (fun faults => x faults >>= f faults) fun faults => plain faults >>= next faults := by
  have hbind : ∀ faults, (x faults >>= f faults) = match x faults with
      | .error error => Except.error error
      | .ok (a, calls) => Except.map (fun second => (second.1, calls ++ second.2)) (f faults a) := by
    intro faults
    change Except.bind (x faults) _ = _
    cases x faults with
    | error error => rfl
    | ok first => rfl
  -- a completed bind logs the calls of both halves, in order
  have hsplit : ∀ {faults b calls}, (x faults >>= f faults) = Except.ok (b, calls) →
      ∃ a first second, x faults = .ok (a, first) ∧ f faults a = .ok (b, second) ∧
        calls = first ++ second := by
    intro faults b calls h
    rw [hbind] at h
    split at h
    next => cases h
    next a first hfirst =>
      cases hsecond : f faults a with
      | error error => rw [hsecond] at h; cases h
      | ok second =>
          rw [hsecond] at h
          cases h
          exact ⟨a, first, second.2, hfirst, hsecond, rfl⟩
  refine ⟨fun faults => ?_, fun {faults b calls} hok faults' call hmem hfails => ?_,
    fun {faults b calls} hok faults' hnone => ?_⟩
  · rw [← hx.erase faults, hbind]
    cases x faults with
    | error error => rfl
    | ok first =>
        rw [show (Except.map (fun logged => out logged.1) (Except.ok first) >>= next faults) =
          next faults (out first.1) from rfl, ← (hf first.1).erase faults]
        dsimp only
        cases f faults first.1 with
        | error error => rfl
        | ok second => rfl
  -- both remaining parts start from a run that completed
  all_goals
    obtain ⟨a, first, second, hfirst, hsecond, rfl⟩ := hsplit hok
    rw [hbind]
  · cases hfirst' : x faults' with
    | error error => exact ⟨error, rfl⟩
    | ok result =>
        rcases List.mem_append.mp hmem with hmem | hmem
        · obtain ⟨error, herror⟩ := hx.fails hfirst hmem hfails
          rw [herror] at hfirst'
          cases hfirst'
        · by_cases hany : ∃ call ∈ first, faults' call = true
          · obtain ⟨earlier, hearlier, htrue⟩ := hany
            obtain ⟨error, herror⟩ := hx.fails hfirst hearlier htrue
            rw [herror] at hfirst'
            cases hfirst'
          · have hsame := hx.returns hfirst fun call hcall =>
              Bool.eq_false_iff.mpr fun htrue => hany ⟨call, hcall, htrue⟩
            rw [hsame] at hfirst'
            cases hfirst'
            obtain ⟨error, herror⟩ := (hf a).fails hsecond hmem hfails
            dsimp only at herror ⊢
            rw [herror]
            exact ⟨error, rfl⟩
  · rw [hx.returns hfirst fun call hcall => hnone call (List.mem_append_left _ hcall)]
    have hlater := (hf a).returns hsecond fun call hcall =>
      hnone call (List.mem_append_right _ hcall)
    dsimp only at hlater ⊢
    rw [hlater]
    rfl

theorem Traces.bind {x : (κ → Bool) → Logged ε κ α} {f : (κ → Bool) → α → Logged ε κ β}
    {plain : (κ → Bool) → Except ε α} {next : (κ → Bool) → α → Except ε β'}
    (hx : Traces id x plain)
    (hf : ∀ a, Traces out' (fun faults => f faults a) fun faults => next faults a) :
    Traces out' (fun faults => x faults >>= f faults) fun faults => plain faults >>= next faults :=
  hx.bind_out hf

theorem Traces.ite {c : Prop} [Decidable c] {x y : (κ → Bool) → Logged ε κ α}
    {plain plain' : (κ → Bool) → Except ε α'} (hx : Traces out x plain)
    (hy : Traces out y plain') : Traces out (fun faults => if c then x faults else y faults)
      fun faults => if c then plain faults else plain' faults := by
  by_cases hc : c
  · simpa only [if_pos hc] using hx
  · simpa only [if_neg hc] using hy

theorem Traces.congr {x : (κ → Bool) → Logged ε κ α} {plain plain' : (κ → Bool) → Except ε α'}
    (h : Traces out x plain) (heq : ∀ faults, plain' faults = plain faults) :
    Traces out x plain' := by
  rwa [funext heq]

theorem traces_mapAll {step : (κ → Bool) → ι → Logged ε κ α}
    {plain : (κ → Bool) → ι → Except ε α}
    (hstep : ∀ x, Traces id (fun faults => step faults x) fun faults => plain faults x)
    (xs : List ι) :
    Traces id (fun faults => mapAll (step faults) xs) fun faults => xs.mapM (plain faults) := by
  induction xs with
  | nil => exact traces_pure []
  | cons x xs ih =>
      exact ((hstep x).bind fun a => ih.bind fun as => traces_pure (a :: as)).congr
        fun faults => mapM_cons_except (plain faults) x xs

/-- What the plain computation does under an oracle, from a run that returned. -/
theorem Traces.plain_fails {x : (κ → Bool) → Logged ε κ α} {plain : (κ → Bool) → Except ε α'}
    (h : Traces out x plain) (faults : κ → Bool) {faults' : κ → Bool} {a : α} {calls : List κ}
    {call : κ} (hok : x faults = Except.ok (a, calls)) (hmem : call ∈ calls)
    (hfails : faults' call = true) : ∃ error, plain faults' = .error error := by
  obtain ⟨error, herror⟩ := h.fails hok hmem hfails
  exact ⟨error, by rw [← h.erase, herror]; rfl⟩

theorem Traces.plain_returns {x : (κ → Bool) → Logged ε κ α} {plain : (κ → Bool) → Except ε α'}
    (h : Traces out x plain) (faults : κ → Bool) {faults' : κ → Bool} {a : α} {calls : List κ}
    (hok : x faults = Except.ok (a, calls)) (hnone : ∀ call ∈ calls, faults' call = false) :
    plain faults' = .ok (out a) := by
  rw [← h.erase, h.returns hok hnone]
  rfl

end Traces

section Costs

variable [AddCommMonoid M] {cost : κ → M}

/-- The computation returns `a` after calls of this total cost. -/
def Costs (cost : κ → M) (x : Logged ε κ α) (a : α) (total : M) : Prop :=
  ∃ calls, x = Except.ok (a, calls) ∧ (calls.map cost).sum = total

theorem costs_pure (a : α) : Costs cost (pure a : Logged ε κ α) a 0 := ⟨[], rfl, rfl⟩

theorem Costs.bind {x : Logged ε κ α} {f : α → Logged ε κ β} {a : α} {b : β} {first second : M}
    (hx : Costs cost x a first) (hf : Costs cost (f a) b second) :
    Costs cost (x >>= f) b (first + second) := by
  obtain ⟨calls, rfl, rfl⟩ := hx
  obtain ⟨later, hlater, rfl⟩ := hf
  refine ⟨calls ++ later, ?_, by rw [List.map_append, List.sum_append]⟩
  change Except.map (fun second => (second.1, calls ++ second.2)) (f a) = _
  rw [hlater]
  rfl

/-- A first step that costs nothing. -/
theorem Costs.skip {x : Logged ε κ α} {f : α → Logged ε κ β} {a : α} {b : β} {total : M}
    (hx : Costs cost x a 0) (hf : Costs cost (f a) b total) : Costs cost (x >>= f) b total := by
  have hbind := hx.bind hf
  rwa [zero_add] at hbind

/-- A last step that costs nothing. -/
theorem Costs.finish {x : Logged ε κ α} {f : α → Logged ε κ β} {a : α} {b : β} {total : M}
    (hx : Costs cost x a total) (hf : Costs cost (f a) b 0) : Costs cost (x >>= f) b total := by
  have hbind := hx.bind hf
  rwa [add_zero] at hbind

theorem Costs.congr {x : Logged ε κ α} {a : α} {total total' : M} (h : Costs cost x a total)
    (htotal : total = total') : Costs cost x a total' := htotal ▸ h

theorem costs_quiet {x : Except ε α} {a : α} (h : x = .ok a) :
    Costs cost (quiet x : Logged ε κ α) a 0 := by
  subst h
  exact costs_pure a

theorem costs_issue {x : Except ε α} {a : α} (call : κ) (h : x = .ok a) :
    Costs cost (issue call x) a (cost call) := by
  subst h
  exact ⟨[call], rfl, List.sum_singleton⟩

/-- A check that passes. -/
theorem Costs.guard {c : Prop} [Decidable c] {x y : Logged ε κ α} {a : α} {total : M}
    (hc : ¬c) (h : Costs cost y a total) : Costs cost (if c then x else y) a total := by
  rwa [if_neg hc]

/-- A call that is made under a condition. -/
theorem costs_when {c : Prop} [Decidable c] {x y : Logged ε κ α} {a : α} {total : M}
    (hx : c → Costs cost x a total) (hy : ¬c → Costs cost y a 0) :
    Costs cost (if c then x else y) a (if c then total else 0) := by
  split
  next hc => exact hx hc
  next hc => exact hy hc

/-- A fallible map costs what its results cost. -/
theorem costs_mapAll {step : ι → Logged ε κ α} {plain : ι → Except ε α} {total : α → M}
    {xs : List ι} {as : List α} (h : xs.mapM plain = .ok as)
    (hstep : ∀ x ∈ xs, ∀ a, plain x = .ok a → Costs cost (step x) a (total a)) :
    Costs cost (mapAll step xs) as (as.map total).sum := by
  induction xs generalizing as with
  | nil =>
      cases h
      exact costs_pure []
  | cons x xs ih =>
      rw [mapM_cons_except, bind_eq_ok] at h
      obtain ⟨a, ha, h⟩ := h
      obtain ⟨rest, hrest, h⟩ := bind_eq_ok.mp h
      cases h
      have hfirst := hstep x List.mem_cons_self a ha
      have hothers := ih hrest fun y hy => hstep y (List.mem_cons_of_mem x hy)
      rw [List.map_cons, List.sum_cons]
      exact hfirst.bind (hothers.finish (costs_pure _))

end Costs

end Logged

/-- Some of the entries cost `r` more than the others. -/
theorem sum_map_ite_add [AddCommMonoid M] (p : ι → Prop) [DecidablePred p] (r w : M)
    (xs : List ι) :
    (xs.map fun x => (if p x then r else 0) + w).sum = xs.countP p • r + xs.length • w := by
  induction xs with
  | nil => rw [List.map_nil, List.sum_nil, List.countP_nil, List.length_nil, zero_nsmul, zero_nsmul,
      add_zero]
  | cons x xs ih =>
      rw [List.map_cons, List.sum_cons, ih, List.length_cons, succ_nsmul, List.countP_cons]
      split
      next h => rw [if_pos (by simpa using h), succ_nsmul]; abel
      next h => rw [if_neg (by simpa using h), add_zero]; abel

end Foundation
