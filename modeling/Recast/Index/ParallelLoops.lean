import Recast.Foundation.Interleaved
import Recast.Index.State

/-!
# The loops on a team of threads

`parallel_for_static` and `parallel_for_dynamic` run their iterations on an OpenMP team,
in any interleaving. Every list has an iteration of its own, so that a team leaves what
one thread leaves that goes on after an error.
-/

namespace Recast

open Foundation

section Team

variable {ι α : Type*} {key : ι → Nat} {step : ι → α → α × Except Error Unit} {items : List ι}

/-- A team makes every iteration, also those after an error. -/
theorem parallelFor_team (hnodup : (items.map key).Nodup) (state : Nat → α) {item : ι}
    (hitem : item ∈ items) :
    (parallelFor true key step items state).1 (key item) = (step item (state (key item))).1 := by
  induction items generalizing state with
  | nil => cases hitem
  | cons first rest ih =>
      rw [List.map_cons, List.nodup_cons] at hnodup
      obtain ⟨hfresh, hnodup⟩ := hnodup
      have hunfold : (parallelFor true key step (first :: rest) state).1 =
          (parallelFor true key step rest
            (Function.update state (key first) (step first (state (key first))).1)).1 := by
        rw [parallelFor]
        split
        next value heq => rw [heq]
        next value error heq =>
          rw [heq]
          dsimp only
          rw [if_pos rfl]
      rw [hunfold]
      rcases List.mem_cons.mp hitem with rfl | hrest
      · rcases parallelFor_cases hnodup _ (key item) with hkept | ⟨other, hother, hsame, -⟩
        · rw [hkept, Function.update_self]
        · exact absurd (hsame ▸ List.mem_map_of_mem hother) hfresh
      · have hne : key item ≠ key first := fun heq => hfresh (heq ▸ List.mem_map_of_mem hrest)
        rw [ih hnodup _ hrest, Function.update_of_ne hne]

/-- The cells no iteration works on keep their values. -/
theorem parallelFor_beside {team : Bool} (hnodup : (items.map key).Nodup) (state : Nat → α) {k : Nat}
    (hk : k ∉ items.map key) : (parallelFor team key step items state).1 k = state k := by
  rcases parallelFor_cases hnodup state k with hkept | ⟨item, hitem, hsame, -⟩
  · exact hkept
  · exact absurd (hsame ▸ List.mem_map_of_mem hitem) hk

end Team

/-- A loop over items with a cell each, and what the OpenMP runtime knows of the
calling thread. -/
structure ParallelLoop (ι α : Type) where
  minimumItemsPerWorker : Nat
  maxThreads : Nat
  inParallel : Bool
  key : ι → Nat
  /-- The accesses of an iteration to its cell. -/
  jobs : ι → Job Error α

namespace ParallelLoop

variable {ι α : Type}

/-- One iteration without interruption. -/
def function (loop : ParallelLoop ι α) (item : ι) : α → α × Except Error Unit :=
  runJob (loop.jobs item)

/-- `useful_workers`. -/
def usefulWorkers (loop : ParallelLoop ι α) (count : Nat) : Nat :=
  if count = 0 then 0 else 1 + (count - 1) / max loop.minimumItemsPerWorker 1

/-- `worker_count`. -/
def workerCount (loop : ParallelLoop ι α) (count : Nat) : Nat :=
  min loop.maxThreads (loop.usefulWorkers count)

/-- The loop gets a team. -/
def onTeam (loop : ParallelLoop ι α) (count : Nat) : Bool :=
  decide (1 < loop.workerCount count) && !loop.inParallel

/-- The largest `int64_t`. -/
def int64Max : Nat := 2 ^ 63 - 1

/-- `schedule(dynamic, 8)`. -/
def dynamicChunk : Nat := 8

/-- `first_error` is rethrown after the loop. -/
def rethrow : Option Error → Except Error Unit
  | none => .ok ()
  | some error => .error error

/-- The ways the loop can end from `state`. -/
inductive Ends (loop : ParallelLoop ι α) (items : List ι)
    (schedules : Crew.Schedule (loop.workerCount items.length) ι → Prop) (state : Nat → α) :
    (Nat → α) × Except Error Unit → Prop where
  | alone (h : loop.onTeam items.length = false) :
      Ends loop items schedules state (parallelFor false loop.key loop.function items state)
  | tooLarge (h : loop.onTeam items.length = true) (hlarge : int64Max < items.length) :
      Ends loop items schedules state
        (state, .error (.overflow "parallel batch stage is too large"))
  | team (h : loop.onTeam items.length = true) (hsmall : items.length ≤ int64Max)
      {schedule : Crew.Schedule (loop.workerCount items.length) ι} (hschedule : schedules schedule)
      {steps : Nat} {crew : Crew (loop.workerCount items.length) ι Nat Error α}
      (hrun : Crew.Run loop.key loop.jobs dynamicChunk (Crew.start schedule items state) steps crew)
      (hfinished : crew.Finished) :
      Ends loop items schedules state (crew.store, rethrow crew.firstError)

/-- `parallel_for_static`: the runtime divides the items into one range for each thread. -/
def parallelForStatic (loop : ParallelLoop ι α) (items : List ι) :
    (Nat → α) → (Nat → α) × Except Error Unit → Prop :=
  loop.Ends items fun schedule => ∃ queues, schedule = .static queues ∧ schedule.Divides items

/-- `parallel_for_dynamic`: the threads claim the items, eight at a time. -/
def parallelForDynamic (loop : ParallelLoop ι α) (items : List ι) :
    (Nat → α) → (Nat → α) × Except Error Unit → Prop :=
  loop.Ends items (· = .dynamic)

variable {loop : ParallelLoop ι α} {items : List ι} {state : Nat → α}

theorem two_workers (h : loop.onTeam items.length = true) : 1 < loop.workerCount items.length :=
  of_decide_eq_true (Bool.and_eq_true_iff.mp h).1

/-- However a loop over distinct cells ends, it has the cells of `parallelFor`, returns exactly
when `parallelFor` does, and throws what one of its iterations throws. -/
theorem Ends.agrees {schedules : Crew.Schedule (loop.workerCount items.length) ι → Prop}
    (hdivides : ∀ schedule, schedules schedule → schedule.Divides items)
    (hnodup : (items.map loop.key).Nodup) (hsmall : items.length ≤ int64Max)
    {outcome : (Nat → α) × Except Error Unit} (h : loop.Ends items schedules state outcome) :
    outcome.1 = (parallelFor (loop.onTeam items.length) loop.key loop.function items state).1 ∧
      (outcome.2 = .ok () ↔
        (parallelFor (loop.onTeam items.length) loop.key loop.function items state).2 = .ok ()) ∧
      ∀ error, outcome.2 = .error error →
        ∃ item ∈ items, (loop.function item (state (loop.key item))).2 = .error error := by
  cases h with
  | alone halone =>
      rw [halone]
      exact ⟨rfl, Iff.rfl, fun _ => parallelFor_error hnodup⟩
  | tooLarge _ hlarge => exact absurd hsmall (not_le.mpr hlarge)
  | team hteam _ hschedule hrun hfinished =>
      obtain ⟨hvalues, hbeside, hreturned, hfailed⟩ :=
        hrun.finished (hdivides _ hschedule) hnodup hfinished
      rename_i crew
      rw [hteam]
      dsimp only
      have hstore : crew.store = (parallelFor true loop.key loop.function items state).1 := by
        funext k
        by_cases hk : k ∈ items.map loop.key
        · obtain ⟨item, hitem, rfl⟩ := List.mem_map.mp hk
          rw [parallelFor_team hnodup state hitem]
          exact hvalues item hitem
        · rw [parallelFor_beside hnodup state hk]
          exact hbeside k hk
      cases hkept : crew.firstError with
      | none =>
          have hok := (@parallelFor_ok _ _ true _ loop.function _ hnodup _ (hreturned hkept)).1
          exact ⟨hstore, ⟨fun _ => hok, fun _ => rfl⟩, nofun⟩
      | some error =>
          obtain ⟨item, hitem, hthrows⟩ := hfailed error hkept
          refine ⟨hstore, ⟨nofun, fun hok => ?_⟩, ?_⟩
          · have hreturns := parallelFor_eq_ok hnodup hok item hitem
            rw [function, hthrows] at hreturns
            cases hreturns
          · rintro _ ⟨⟩
            exact ⟨item, hitem, hthrows⟩

/-- A loop of the update path, on any schedule and in any interleaving of the accesses.
It ends with the cells of `parallelFor`, returns exactly when `parallelFor` does, and throws
the exception of one of its iterations. A team neither stops before it is done nor runs
forever. -/
theorem parallel_loops_interleave (hnodup : (items.map loop.key).Nodup)
    (hsmall : items.length ≤ int64Max) :
    (∀ outcome, loop.parallelForStatic items state outcome ∨ loop.parallelForDynamic items state outcome →
      outcome.1 = (parallelFor (loop.onTeam items.length) loop.key loop.function items state).1 ∧
      (outcome.2 = .ok () ↔
        (parallelFor (loop.onTeam items.length) loop.key loop.function items state).2 = .ok ()) ∧
      ∀ error, outcome.2 = .error error →
        ∃ item ∈ items, (loop.function item (state (loop.key item))).2 = .error error) ∧
    (loop.onTeam items.length = true → ∀ schedule : Crew.Schedule (loop.workerCount items.length) ι,
      ∃ bound, ∀ steps crew,
        Crew.Run loop.key loop.jobs dynamicChunk (Crew.start schedule items state) steps crew →
        steps ≤ bound ∧ (crew.Finished ∨
          ∃ thread next, crew.step loop.key loop.jobs dynamicChunk thread = some next)) := by
  constructor
  · rintro outcome (hends | hends)
    · apply hends.agrees ?_ hnodup hsmall
      rintro _ ⟨queues, -, hdivides⟩
      exact hdivides
    · apply hends.agrees ?_ hnodup hsmall
      rintro _ rfl
      trivial
  · intro hteam schedule
    refine ⟨Crew.work loop.jobs (Crew.start schedule items state), fun steps crew hrun => ?_⟩
    have hbound := hrun.bound (by decide)
    refine ⟨(Nat.le_add_right steps _).trans hbound, or_iff_not_imp_left.mpr fun hleft => ?_⟩
    exact Crew.exists_step (Nat.zero_lt_of_lt (two_workers hteam)) hleft _ _ _

/-- Two iterations of two accesses each, the last of which fails. -/
def twoCells : ParallelLoop Nat Nat where
  minimumItemsPerWorker := 1
  maxThreads := 2
  inParallel := false
  key := id
  jobs := fun item => [fun value => (value + 5, .ok ()), fun value =>
    (value + item, if item = 0 then .ok () else .error (.overflow "external IVF list size overflows"))]

/-- Every run ends with the same cells and the one exception. -/
theorem parallel_loops_interleave_two : ∃ cells : Nat → Nat,
    cells 0 = 5 ∧ cells 1 = 6 ∧ cells 2 = 0 ∧ ∀ outcome,
      twoCells.parallelForDynamic [0, 1] (fun _ => 0) outcome →
        outcome = (cells, .error (.overflow "external IVF list size overflows")) := by
  refine ⟨(parallelFor (twoCells.onTeam 2) twoCells.key twoCells.function [0, 1] fun _ => 0).1,
    rfl, rfl, rfl, fun outcome hends => ?_⟩
  obtain ⟨hcells, hreturns, hthrows⟩ := (@parallel_loops_interleave _ _ twoCells [0, 1]
    (fun _ => 0) (by decide) (by decide)).1 outcome (.inr hends)
  apply Prod.ext hcells
  cases hresult : outcome.2 with
  | ok _ => cases hreturns.mp hresult
  | error error =>
      obtain ⟨item, hitem, herror⟩ := hthrows error hresult
      rcases List.mem_cons.mp hitem with rfl | hitem
      · cases herror
      · rw [List.mem_singleton.mp hitem] at herror
        cases herror
        rfl

end ParallelLoop

end Recast
