import Mathlib

/-!
# Loops that run on a team of threads

A job is a list of accesses to one cell of a shared store. A team works on the jobs of
many cells, one access at a time and in any order, and keeps the first error that one of
them reports. However the accesses interleave, each cell ends with what its own job makes
of it. The threads of a crew, which take the jobs from queues, are such a team.
-/

namespace Foundation

variable {κ ε α ι : Type*}

/-- The accesses to one cell, in order. The first error ends the job. -/
abbrev Job (ε α : Type*) := List (α → α × Except ε Unit)

/-- The job on its own. -/
def runJob : Job ε α → α → α × Except ε Unit
  | [], value => (value, .ok ())
  | access :: rest, value =>
      match access value with
      | (value, .ok ()) => runJob rest value
      | (value, .error error) => (value, .error error)

@[simp] theorem runJob_nil (value : α) : runJob ([] : Job ε α) value = (value, .ok ()) := rfl

/-- What is left of a job. -/
inductive JobState (ε α : Type*) where
  | running (rest : Job ε α)
  /-- The error is caught, and not yet kept or dropped. -/
  | caught (error : ε)

/-- The next step of a job: an access, its end, or the report of its error. The first
report is kept, a later one is dropped. -/
def JobState.step : JobState ε α → α → Option ε → α × Option (JobState ε α) × Option ε
  | .running [], value, firstError => (value, none, firstError)
  | .running (access :: rest), value, firstError =>
      match access value with
      | (value, .ok ()) => (value, some (.running rest), firstError)
      | (value, .error error) => (value, some (.caught error), firstError)
  | .caught error, value, firstError => (value, none, firstError <|> some error)

/-- What the state of a job says of its cell, seen from its first value. -/
def Tracked (job : Job ε α) (initial value : α) (firstError : Option ε) :
    Option (JobState ε α) → Prop
  | some (.running rest) => runJob rest value = runJob job initial
  | some (.caught error) => runJob job initial = (value, .error error)
  | none => value = (runJob job initial).1 ∧
      (firstError = none → (runJob job initial).2 = .ok ())

section Tracked

variable {job : Job ε α} {initial value : α} {firstError firstError' : Option ε}
  {state : JobState ε α}

/-- An error that is kept later only weakens what is known of a cell. -/
theorem Tracked.mono {state : Option (JobState ε α)} (h : Tracked job initial value firstError state)
    (hkept : firstError' = none → firstError = none) :
    Tracked job initial value firstError' state := by
  cases state with
  | none => exact ⟨h.1, fun hnone => h.2 (hkept hnone)⟩
  | some state => cases state <;> exact h

theorem Tracked.step (h : Tracked job initial value firstError (some state)) :
    Tracked job initial (state.step value firstError).1 (state.step value firstError).2.2
      (state.step value firstError).2.1 := by
  cases state with
  | running rest =>
      cases rest with
      | nil => exact ⟨congrArg Prod.fst h, fun _ => (congrArg Prod.snd h).symm⟩
      | cons access rest =>
          change runJob (access :: rest) value = runJob job initial at h
          rw [runJob] at h
          rw [JobState.step]
          split at h
          next => exact h
          next => exact h.symm
  | caught error =>
      refine ⟨(congrArg Prod.fst h).symm, fun hnone => ?_⟩
      cases firstError <;> cases hnone

theorem JobState.step_keeps (h : (state.step value firstError).2.2 = none) : firstError = none := by
  cases state with
  | running rest =>
      cases rest with
      | nil => exact h
      | cons access rest =>
          rw [JobState.step] at h
          split at h <;> exact h
  | caught error => cases firstError <;> cases h

/-- An error is reported by a job that has failed with it. -/
theorem Tracked.step_reports (h : Tracked job initial value firstError (some state)) {error : ε}
    (hreport : (state.step value firstError).2.2 = some error) :
    firstError = some error ∨ (runJob job initial).2 = .error error := by
  cases state with
  | running rest =>
      left
      cases rest with
      | nil => exact hreport
      | cons access rest =>
          rw [JobState.step] at hreport
          split at hreport <;> exact hreport
  | caught caught =>
      cases firstError with
      | none => exact .inr ((congrArg Prod.snd h).trans (congrArg _ (Option.some.inj hreport)))
      | some kept => exact .inl hreport

end Tracked

/-- The cells, the job on each that has not ended, and the first error reported. -/
structure Team (κ ε α : Type*) where
  store : κ → α
  jobs : κ → Option (JobState ε α)
  firstError : Option ε

namespace Team

/-- The team is on its way from the first store through all jobs. -/
structure Tracks (jobs : κ → Job ε α) (state : κ → α) (team : Team κ ε α) : Prop where
  cells : ∀ k, Tracked (jobs k) (state k) (team.store k) team.firstError (team.jobs k)
  reported : ∀ error, team.firstError = some error → ∃ k, (runJob (jobs k) (state k)).2 = .error error

variable {jobs : κ → Job ε α} {state : κ → α} {team : Team κ ε α}

/-- The next step on one cell. -/
def advance [DecidableEq κ] (k : κ) (team : Team κ ε α) : Team κ ε α :=
  match team.jobs k with
  | none => team
  | some job =>
      let (value, job, firstError) := job.step (team.store k) team.firstError
      ⟨Function.update team.store k value, Function.update team.jobs k job, firstError⟩

theorem Tracks.advance [DecidableEq κ] (h : team.Tracks jobs state) (k : κ) :
    (team.advance k).Tracks jobs state := by
  have hcell := h.cells k
  unfold Team.advance
  cases hjob : team.jobs k with
  | none => exact h
  | some job =>
      rw [hjob] at hcell
      constructor
      · intro other
        dsimp only
        by_cases hother : other = k
        · subst hother
          rw [Function.update_self, Function.update_self]
          exact hcell.step
        · rw [Function.update_of_ne hother, Function.update_of_ne hother]
          exact (h.cells other).mono JobState.step_keeps
      · intro error hreport
        rcases hcell.step_reports hreport with hkept | hfailed
        · exact h.reported error hkept
        · exact ⟨k, hfailed⟩

/-- Nothing is left to do on any cell. -/
def Finished (team : Team κ ε α) : Prop :=
  ∀ k, team.jobs k = none ∨ team.jobs k = some (.running [])

/-- A team that is done has run every job, and reports an error if one failed. -/
theorem Tracks.done (h : team.Tracks jobs state) (hfinished : team.Finished) :
    (∀ k, team.store k = (runJob (jobs k) (state k)).1) ∧
      (team.firstError = none → ∀ k, (runJob (jobs k) (state k)).2 = .ok ()) := by
  have hcell : ∀ k, team.store k = (runJob (jobs k) (state k)).1 ∧
      (team.firstError = none → (runJob (jobs k) (state k)).2 = .ok ()) := by
    intro k
    have hk := h.cells k
    rcases hfinished k with hjob | hjob <;> rw [hjob] at hk
    · exact hk
    · exact ⟨congrArg Prod.fst hk, fun _ => (congrArg Prod.snd hk).symm⟩
  exact ⟨fun k => (hcell k).1, fun hnone k => (hcell k).2 hnone⟩

end Team

/-! ### Threads -/

/-- A thread: the items handed to it, and the one whose job it is in. -/
structure CrewThread (ι ε α : Type*) where
  queue : List ι
  current : Option (ι × JobState ε α)

/-- The items a thread has not finished. -/
def CrewThread.items (thread : CrewThread ι ε α) : List ι :=
  (thread.current.map Prod.fst).toList ++ thread.queue

/-- Threads that take items from a shared list and work on their cells. -/
structure Crew (n : ℕ) (ι κ ε α : Type*) where
  store : κ → α
  unclaimed : List ι
  threads : Fin n → CrewThread ι ε α
  firstError : Option ε

namespace Crew

variable {n : ℕ}

section Steps

variable [DecidableEq κ]

/-- The next step of a thread. With nothing left of its own it claims up to `chunk` more
items. -/
def step (key : ι → κ) (jobs : ι → Job ε α) (chunk : ℕ) (thread : Fin n)
    (crew : Crew n ι κ ε α) : Option (Crew n ι κ ε α) :=
  match crew.threads thread with
  | ⟨queue, some (item, job)⟩ =>
      let (value, job, firstError) := job.step (crew.store (key item)) crew.firstError
      some ⟨Function.update crew.store (key item) value, crew.unclaimed,
        Function.update crew.threads thread ⟨queue, job.map (item, ·)⟩, firstError⟩
  | ⟨item :: queue, none⟩ =>
      some { crew with
        threads := Function.update crew.threads thread ⟨queue, some (item, .running (jobs item))⟩ }
  | ⟨[], none⟩ =>
      if crew.unclaimed = [] then none else
      some { crew with
        unclaimed := crew.unclaimed.drop chunk
        threads := Function.update crew.threads thread ⟨crew.unclaimed.take chunk, none⟩ }

/-- What a step can be: a step of a job, the beginning of one, or a claim. -/
theorem step_cases {key : ι → κ} {jobs : ι → Job ε α} {chunk : ℕ} {crew next : Crew n ι κ ε α}
    {thread : Fin n} (h : crew.step key jobs chunk thread = some next) :
    (∃ queue item job, crew.threads thread = ⟨queue, some (item, job)⟩ ∧
      next = ⟨Function.update crew.store (key item)
          (job.step (crew.store (key item)) crew.firstError).1, crew.unclaimed,
        Function.update crew.threads thread
          ⟨queue, (job.step (crew.store (key item)) crew.firstError).2.1.map (item, ·)⟩,
        (job.step (crew.store (key item)) crew.firstError).2.2⟩) ∨
    (∃ item queue, crew.threads thread = ⟨item :: queue, none⟩ ∧
      next = { crew with
        threads := Function.update crew.threads thread ⟨queue, some (item, .running (jobs item))⟩ }) ∨
    (crew.threads thread = ⟨[], none⟩ ∧ crew.unclaimed ≠ [] ∧
      next = { crew with
        unclaimed := crew.unclaimed.drop chunk
        threads := Function.update crew.threads thread ⟨crew.unclaimed.take chunk, none⟩ }) := by
  unfold step at h
  split at h
  next queue item job hthread =>
    exact .inl ⟨queue, item, job, hthread, (Option.some.inj h).symm⟩
  next item queue hthread =>
    exact .inr (.inl ⟨item, queue, hthread, (Option.some.inj h).symm⟩)
  next hthread =>
    split at h
    next => cases h
    next hleft => exact .inr (.inr ⟨hthread, hleft, (Option.some.inj h).symm⟩)

/-- The states of the runs from `first`, with the number of their steps. -/
inductive Run (key : ι → κ) (jobs : ι → Job ε α) (chunk : ℕ) (first : Crew n ι κ ε α) :
    ℕ → Crew n ι κ ε α → Prop where
  | refl : Run key jobs chunk first 0 first
  | step {steps : ℕ} {crew next : Crew n ι κ ε α} {thread : Fin n} :
      Run key jobs chunk first steps crew → crew.step key jobs chunk thread = some next →
      Run key jobs chunk first (steps + 1) next

end Steps

/-- All items are claimed, and no thread has any left. -/
def Finished (crew : Crew n ι κ ε α) : Prop :=
  crew.unclaimed = [] ∧ ∀ thread, crew.threads thread = ⟨[], none⟩

variable {key : ι → κ} {jobs : ι → Job ε α} {chunk : ℕ} {crew next : Crew n ι κ ε α}
  {team : Team κ ε α} {thread : Fin n}

/-- Two items in work never share a cell. -/
structure Apart (key : ι → κ) (crew : Crew n ι κ ε α) : Prop where
  nodup : ∀ thread, (((crew.threads thread).items ++ crew.unclaimed).map key).Nodup
  disjoint : ∀ thread other, thread ≠ other → ∀ item ∈ (crew.threads thread).items,
    ∀ item' ∈ (crew.threads other).items, key item ≠ key item'

/-- The crew does the work of a team: the state of a job is where a thread has it, and
full for an item that no thread has begun. -/
structure Works (key : ι → κ) (jobs : ι → Job ε α) (crew : Crew n ι κ ε α) (team : Team κ ε α) :
    Prop where
  store : team.store = crew.store
  firstError : team.firstError = crew.firstError
  unclaimed : ∀ item ∈ crew.unclaimed, team.jobs (key item) = some (.running (jobs item))
  queued : ∀ thread, ∀ item ∈ (crew.threads thread).queue,
    team.jobs (key item) = some (.running (jobs item))
  current : ∀ thread item state, (crew.threads thread).current = some (item, state) →
    team.jobs (key item) = some state
  idle : ∀ k, (∀ item ∈ crew.unclaimed, key item ≠ k) →
    (∀ thread, ∀ item ∈ (crew.threads thread).items, key item ≠ k) →
    team.jobs k = none ∨ team.jobs k = some (.running [])

/-- What a thread lets go of, no other thread has. -/
theorem Apart.shrink (h : crew.Apart key) {items : CrewThread ι ε α} {unclaimed : List ι}
    (hitems : (items.items ++ unclaimed).Sublist ((crew.threads thread).items ++ crew.unclaimed))
    (hunclaimed : unclaimed.Sublist crew.unclaimed)
    (hfresh : ∀ item ∈ items.items, item ∈ (crew.threads thread).items ∨ item ∈ crew.unclaimed)
    (store : κ → α) (firstError : Option ε) :
    Apart key ⟨store, unclaimed, Function.update crew.threads thread items, firstError⟩ := by
  have hother : ∀ other, other ≠ thread → ∀ item ∈ items.items,
      ∀ item' ∈ (crew.threads other).items, key item ≠ key item' := by
    intro other hne item hitem item' hitem'
    rcases hfresh item hitem with hmem | hmem
    · exact h.disjoint thread other (Ne.symm hne) item hmem item' hitem'
    · have hnodup := h.nodup other
      rw [List.map_append] at hnodup
      exact fun heq => List.disjoint_of_nodup_append hnodup (List.mem_map_of_mem hitem')
        (heq ▸ List.mem_map_of_mem hmem)
  constructor
  · intro other
    dsimp only
    by_cases hother : other = thread
    · subst hother
      rw [Function.update_self]
      exact (h.nodup other).sublist (hitems.map key)
    · rw [Function.update_of_ne hother]
      exact (h.nodup other).sublist ((List.Sublist.append_left hunclaimed _).map key)
  · intro one other hne item hitem item' hitem'
    dsimp only at hitem hitem'
    by_cases hone : one = thread
    · subst hone
      rw [Function.update_self] at hitem
      rw [Function.update_of_ne (Ne.symm hne)] at hitem'
      exact hother other (Ne.symm hne) item hitem item' hitem'
    · rw [Function.update_of_ne hone] at hitem
      by_cases htwo : other = thread
      · subst htwo
        rw [Function.update_self] at hitem'
        exact (hother one hone item' hitem' item hitem).symm
      · rw [Function.update_of_ne htwo] at hitem'
        exact h.disjoint one other hne item hitem item' hitem'

/-- The cell of a thread is no one else's. -/
theorem Apart.key_ne (h : crew.Apart key) {queue : List ι} {item : ι} {job : JobState ε α}
    (hthread : crew.threads thread = ⟨queue, some (item, job)⟩) :
    (∀ other ∈ queue, key other ≠ key item) ∧ (∀ other ∈ crew.unclaimed, key other ≠ key item) ∧
      ∀ thread', thread' ≠ thread → ∀ other ∈ (crew.threads thread').items,
        key other ≠ key item := by
  have hnodup := h.nodup thread
  rw [hthread] at hnodup
  change ((item :: (queue ++ crew.unclaimed)).map key).Nodup at hnodup
  rw [List.map_cons, List.nodup_cons] at hnodup
  have hfresh : ∀ other ∈ queue ++ crew.unclaimed, key other ≠ key item := fun other hother heq =>
    hnodup.1 (heq ▸ List.mem_map_of_mem hother)
  refine ⟨fun other hother => hfresh other (List.mem_append_left _ hother),
    fun other hother => hfresh other (List.mem_append_right _ hother),
    fun thread' hne other hother => ?_⟩
  apply h.disjoint thread' thread hne other hother
  rw [hthread]
  exact List.mem_cons_self

/-- A thread that begins a job or claims items changes nothing for the team. -/
theorem Works.take (h : crew.Works key jobs team) {thread' : CrewThread ι ε α} {unclaimed : List ι}
    (hqueue : ∀ item ∈ thread'.queue, item ∈ (crew.threads thread).queue ∨ item ∈ crew.unclaimed)
    (hcurrent : ∀ item job, thread'.current = some (item, job) →
      item ∈ (crew.threads thread).queue ∧ job = .running (jobs item))
    (hunclaimed : ∀ item ∈ unclaimed, item ∈ crew.unclaimed)
    (hkept : ∀ item, item ∈ (crew.threads thread).items ∨ item ∈ crew.unclaimed →
      item ∈ thread'.items ∨ item ∈ unclaimed) :
    Works key jobs { crew with
      unclaimed := unclaimed
      threads := Function.update crew.threads thread thread' } team := by
  refine ⟨h.store, h.firstError, fun item hitem => h.unclaimed item (hunclaimed item hitem),
    fun other item hitem => ?_, fun other item state hother => ?_, fun k hfree hidle => ?_⟩ <;>
    dsimp only at *
  · by_cases hthread : other = thread
    · subst hthread
      rw [Function.update_self] at hitem
      rcases hqueue item hitem with hmem | hmem
      · exact h.queued other item hmem
      · exact h.unclaimed item hmem
    · rw [Function.update_of_ne hthread] at hitem
      exact h.queued other item hitem
  · by_cases hthread : other = thread
    · subst hthread
      rw [Function.update_self] at hother
      obtain ⟨hmem, rfl⟩ := hcurrent item state hother
      exact h.queued other item hmem
    · rw [Function.update_of_ne hthread] at hother
      exact h.current other item state hother
  · have hnew := hidle thread
    rw [Function.update_self] at hnew
    have hnone : ∀ item, item ∈ (crew.threads thread).items ∨ item ∈ crew.unclaimed →
        key item ≠ k := by
      intro item hitem
      rcases hkept item hitem with hmem | hmem
      · exact hnew item hmem
      · exact hfree item hmem
    apply h.idle k fun item hitem => hnone item (.inr hitem)
    intro other item hitem
    by_cases hthread : other = thread
    · subst hthread
      exact hnone item (.inl hitem)
    · apply hidle other item
      rwa [Function.update_of_ne hthread]

section Steps

variable [DecidableEq κ]

theorem Apart.step (h : crew.Apart key) (hstep : crew.step key jobs chunk thread = some next) :
    next.Apart key := by
  rcases step_cases hstep with ⟨queue, item, job, hthread, rfl⟩ | ⟨item, queue, hthread, rfl⟩ |
    ⟨hthread, -, rfl⟩
  · have hsublist : ∀ job : Option (JobState ε α),
        (CrewThread.items ⟨queue, job.map (item, ·)⟩).Sublist (crew.threads thread).items := by
      intro job
      rw [hthread]
      cases job with
      | none => exact List.sublist_cons_self item queue
      | some job => exact List.Sublist.refl _
    exact h.shrink ((hsublist _).append_right _) (List.Sublist.refl _)
      (fun item hitem => .inl ((hsublist _).subset hitem)) _ _
  · have hitems : CrewThread.items ⟨queue, some (item, .running (jobs item))⟩ =
        (crew.threads thread).items := by
      rw [hthread]
      rfl
    exact h.shrink (hitems ▸ List.Sublist.refl _) (List.Sublist.refl _)
      (fun item hitem => .inl (hitems ▸ hitem)) _ _
  · have hclaimed : CrewThread.items (⟨crew.unclaimed.take chunk, none⟩ : CrewThread ι ε α) =
        crew.unclaimed.take chunk := rfl
    refine h.shrink ?_ (List.drop_sublist chunk crew.unclaimed)
      (fun item hitem => .inr (List.mem_of_mem_take (hclaimed ▸ hitem))) _ _
    rw [hthread]
    change (crew.unclaimed.take chunk ++ crew.unclaimed.drop chunk).Sublist crew.unclaimed
    rw [List.take_append_drop]

/-- A step of a job is a step of the team. -/
theorem Works.work (h : crew.Works key jobs team) (hapart : crew.Apart key) {queue : List ι}
    {item : ι} {job : JobState ε α} (hthread : crew.threads thread = ⟨queue, some (item, job)⟩)
    (value : α) (job' : Option (JobState ε α)) (firstError : Option ε) :
    Works key jobs
      ⟨Function.update crew.store (key item) value, crew.unclaimed,
        Function.update crew.threads thread ⟨queue, job'.map (item, ·)⟩, firstError⟩
      ⟨Function.update team.store (key item) value, Function.update team.jobs (key item) job',
        firstError⟩ := by
  obtain ⟨hqueue, hunclaimed, hothers⟩ := hapart.key_ne hthread
  refine ⟨by rw [h.store], rfl, fun other hother => ?_, fun thread' other hother => ?_,
    fun thread' other state hcurrent => ?_, fun k hfree hidle => ?_⟩ <;> dsimp only at *
  · rw [Function.update_of_ne (hunclaimed other hother)]
    exact h.unclaimed other hother
  · by_cases hthread' : thread' = thread
    · subst hthread'
      rw [Function.update_self] at hother
      rw [Function.update_of_ne (hqueue other hother)]
      apply h.queued thread' other
      rwa [hthread]
    · rw [Function.update_of_ne hthread'] at hother
      rw [Function.update_of_ne (hothers thread' hthread' other (List.mem_append_right _ hother))]
      exact h.queued thread' other hother
  · by_cases hthread' : thread' = thread
    · subst hthread'
      rw [Function.update_self] at hcurrent
      obtain ⟨job, rfl, hsame⟩ := Option.map_eq_some_iff.mp hcurrent
      cases hsame
      rw [Function.update_self]
    · rw [Function.update_of_ne hthread'] at hcurrent
      have hmem : other ∈ (crew.threads thread').items := by
        rw [CrewThread.items, hcurrent]
        exact List.mem_cons_self
      rw [Function.update_of_ne (hothers thread' hthread' other hmem)]
      exact h.current thread' other state hcurrent
  · have hrest : ∀ thread' ≠ thread, ∀ other ∈ (crew.threads thread').items, key other ≠ k := by
      intro thread' hne other hother
      apply hidle thread' other
      rwa [Function.update_of_ne hne]
    have hkept := hidle thread
    rw [Function.update_self] at hkept
    by_cases hk : key item = k
    · subst hk
      rw [Function.update_self]
      cases job' with
      | none => exact .inl rfl
      | some job' => exact absurd rfl (hkept item List.mem_cons_self)
    · rw [Function.update_of_ne (Ne.symm hk)]
      apply h.idle k hfree
      intro thread' other hother
      by_cases hthread' : thread' = thread
      · subst hthread'
        rw [hthread] at hother
        rcases List.mem_cons.mp hother with rfl | hother
        · exact hk
        · exact hkept other (List.mem_append_right _ hother)
      · exact hrest thread' hthread' other hother

/-- Every step of the crew is a step of the team, or none. -/
theorem Works.step (h : crew.Works key jobs team) (hapart : crew.Apart key)
    (hstep : crew.step key jobs chunk thread = some next) :
    ∃ team', next.Works key jobs team' ∧ (team' = team ∨ ∃ k, team' = team.advance k) := by
  rcases step_cases hstep with ⟨queue, item, job, hthread, rfl⟩ | ⟨item, queue, hthread, rfl⟩ |
    ⟨hthread, -, rfl⟩
  · have hjob := h.current thread item job (by rw [hthread])
    refine ⟨_, h.work hapart hthread _ _ _, .inr ⟨key item, ?_⟩⟩
    unfold Team.advance
    rw [hjob, h.store, h.firstError]
  · refine ⟨team, h.take ?_ ?_ (fun _ hitem => hitem) ?_, .inl rfl⟩
    · intro other hother
      rw [hthread]
      exact .inl (List.mem_cons_of_mem _ hother)
    · intro other job hother
      cases hother
      rw [hthread]
      exact ⟨List.mem_cons_self, rfl⟩
    · intro other hother
      rwa [hthread] at hother
  · refine ⟨team, h.take ?_ nofun (fun _ => List.mem_of_mem_drop) ?_, .inl rfl⟩
    · exact fun other hother => .inr (List.mem_of_mem_take hother)
    · intro other hother
      rw [hthread] at hother
      change other ∈ crew.unclaimed.take chunk ∨ other ∈ crew.unclaimed.drop chunk
      rw [← List.mem_append, List.take_append_drop]
      exact hother.resolve_left (List.not_mem_nil)

/-- What is known of the first state is known, up to the steps of the team, of every state
of its runs. -/
theorem Run.works {first : Crew n ι κ ε α} {steps : ℕ} (hrun : Run key jobs chunk first steps crew)
    (hapart : first.Apart key) (hworks : first.Works key jobs team) {whole : κ → Job ε α}
    {state : κ → α} (htracks : team.Tracks whole state) :
    crew.Apart key ∧ ∃ team', crew.Works key jobs team' ∧ team'.Tracks whole state := by
  induction hrun with
  | refl => exact ⟨hapart, team, hworks, htracks⟩
  | step _ hstep ih =>
      obtain ⟨hapart, team, hworks, htracks⟩ := ih
      obtain ⟨team', hnext, rfl | ⟨k, rfl⟩⟩ := hworks.step hapart hstep
      · exact ⟨hapart.step hstep, _, hnext, htracks⟩
      · exact ⟨hapart.step hstep, _, hnext, htracks.advance k⟩

end Steps

/-! ### The length of a run -/

/-- The steps a job has left. -/
def left : JobState ε α → ℕ
  | .running rest => rest.length + 1
  | .caught _ => 1

theorem left_step (job : JobState ε α) (value : α) (firstError : Option ε) :
    ((job.step value firstError).2.1.map left).getD 0 < left job := by
  cases job with
  | running rest =>
      cases rest with
      | nil => exact Nat.one_pos
      | cons access rest =>
          rw [JobState.step]
          split
          next => exact Nat.lt_succ_self _
          next => exact Nat.succ_lt_succ (Nat.succ_pos _)
  | caught error => exact Nat.one_pos

/-- The steps a thread has left, apart from claims. -/
def threadWork (jobs : ι → Job ε α) (thread : CrewThread ι ε α) : ℕ :=
  (thread.queue.map fun item => (jobs item).length + 2).sum +
    (thread.current.map fun current => left current.2).getD 0

/-- A bound of the steps the crew has left. -/
def work (jobs : ι → Job ε α) (crew : Crew n ι κ ε α) : ℕ :=
  (crew.unclaimed.map fun item => (jobs item).length + 3).sum +
    ∑ thread, threadWork jobs (crew.threads thread)

theorem sum_update_add {β : Type*} (f : Fin n → β) (cost : β → ℕ) (i : Fin n) (b : β) :
    (∑ j, cost (Function.update f i b j)) + cost (f i) = (∑ j, cost (f j)) + cost b := by
  have hrest : ∑ j ∈ Finset.univ.erase i, cost (Function.update f i b j) =
      ∑ j ∈ Finset.univ.erase i, cost (f j) :=
    Finset.sum_congr rfl fun j hj => by rw [Function.update_of_ne (Finset.ne_of_mem_erase hj)]
  rw [← Finset.add_sum_erase _ _ (Finset.mem_univ i),
    ← Finset.add_sum_erase _ (fun j => cost (f j)) (Finset.mem_univ i), hrest,
    Function.update_self]
  omega

theorem work_step [DecidableEq κ] (hchunk : 0 < chunk)
    (hstep : crew.step key jobs chunk thread = some next) : next.work jobs < crew.work jobs := by
  have hsum := sum_update_add crew.threads (threadWork jobs) thread
  rcases step_cases hstep with ⟨queue, item, job, hthread, rfl⟩ | ⟨item, queue, hthread, rfl⟩ |
    ⟨hthread, hleft, rfl⟩ <;> rw [hthread] at hsum <;> unfold work <;> dsimp only
  · have hnext := left_step job (crew.store (key item)) crew.firstError
    have hthis := hsum ⟨queue, (job.step (crew.store (key item)) crew.firstError).2.1.map (item, ·)⟩
    simp only [threadWork, Option.map_map, Option.map_some, Option.getD_some] at hthis hnext ⊢
    change _ + _ = _ + (_ + (Option.map left _).getD 0) at hthis
    omega
  · have hthis := hsum ⟨queue, some (item, .running (jobs item))⟩
    simp only [threadWork, left, List.map_cons, List.sum_cons, Option.map_some, Option.map_none,
      Option.getD_some, Option.getD_none] at hthis ⊢
    omega
  · have hthis := hsum ⟨crew.unclaimed.take chunk, none⟩
    -- an item costs one step less once it is claimed
    have hclaimed : (crew.unclaimed.map fun item => (jobs item).length + 3).sum =
        ((crew.unclaimed.take chunk).map fun item => (jobs item).length + 2).sum +
          (crew.unclaimed.take chunk).length +
          ((crew.unclaimed.drop chunk).map fun item => (jobs item).length + 3).sum := by
      conv_lhs => rw [← List.take_append_drop chunk crew.unclaimed, List.map_append, List.sum_append]
      have hone : ∀ items : List ι, (items.map fun item => (jobs item).length + 3).sum =
          (items.map fun item => (jobs item).length + 2).sum + items.length := by
        intro items
        induction items with
        | nil => rfl
        | cons item rest ih => simp only [List.map_cons, List.sum_cons, List.length_cons, ih]; omega
      rw [hone]
    have hsome : 0 < (crew.unclaimed.take chunk).length := by
      rw [List.length_take]
      exact Nat.lt_min.mpr ⟨hchunk, List.length_pos_of_ne_nil hleft⟩
    simp only [threadWork, List.map_nil, List.sum_nil, Option.map_none, Option.getD_none] at hthis ⊢
    omega

/-- A run of the crew ends. -/
theorem Run.bound [DecidableEq κ] {first : Crew n ι κ ε α} {steps : ℕ} (hchunk : 0 < chunk)
    (hrun : Run key jobs chunk first steps crew) : steps + crew.work jobs ≤ first.work jobs := by
  induction hrun with
  | refl => exact (Nat.zero_add _).le
  | step _ hstep ih =>
      have hless := work_step hchunk hstep
      omega

/-- A crew that is not done has a thread that can go on. -/
theorem exists_step [DecidableEq κ] (hthreads : 0 < n) (h : ¬crew.Finished) (key : ι → κ)
    (jobs : ι → Job ε α) (chunk : ℕ) : ∃ thread next, crew.step key jobs chunk thread = some next := by
  by_contra hstuck
  simp only [not_exists] at hstuck
  have hidle : ∀ thread, crew.threads thread = ⟨[], none⟩ ∧ crew.unclaimed = [] := by
    intro thread
    have hnone := hstuck thread
    unfold step at hnone
    split at hnone
    next => exact absurd rfl (hnone _)
    next => exact absurd rfl (hnone _)
    next hthread =>
      split at hnone
      next hclaimed => exact ⟨hthread, hclaimed⟩
      next => exact absurd rfl (hnone _)
  exact h ⟨(hidle ⟨0, hthreads⟩).2, fun thread => (hidle thread).1⟩

/-! ### Schedules -/

/-- How the items reach the threads: divided beforehand, or claimed one after the other. -/
inductive Schedule (n : ℕ) (ι : Type*) where
  | static (queues : Fin n → List ι)
  | dynamic

/-- The schedule is one of these items: a static one divides them into ranges. -/
def Schedule.Divides (items : List ι) : Schedule n ι → Prop
  | .static queues => (List.ofFn queues).flatten = items
  | .dynamic => True

/-- No thread has begun. -/
def start (schedule : Schedule n ι) (items : List ι) (store : κ → α) : Crew n ι κ ε α :=
  match schedule with
  | .static queues => ⟨store, [], fun thread => ⟨queues thread, none⟩, none⟩
  | .dynamic => ⟨store, items, fun _ => ⟨[], none⟩, none⟩

variable {schedule : Schedule n ι} {items : List ι}

theorem apart_start (hdivides : schedule.Divides items) (hnodup : (items.map key).Nodup)
    (store : κ → α) : Apart key (start schedule items store : Crew n ι κ ε α) := by
  cases schedule with
  | dynamic => exact ⟨fun _ => hnodup, fun _ _ _ _ hitem => absurd hitem List.not_mem_nil⟩
  | static queues =>
      rw [← (hdivides : (List.ofFn queues).flatten = items), List.map_flatten, List.map_ofFn,
        List.nodup_flatten, List.forall_mem_ofFn_iff, List.pairwise_ofFn] at hnodup
      obtain ⟨hqueues, hdisjoint⟩ := hnodup
      constructor
      · intro thread
        change ((queues thread ++ []).map key).Nodup
        rw [List.append_nil]
        exact hqueues thread
      · intro thread other hne item hitem item' hitem' heq
        change item ∈ queues thread at hitem
        change item' ∈ queues other at hitem'
        rcases lt_or_gt_of_ne hne with hlt | hgt
        · exact hdisjoint hlt (List.mem_map_of_mem hitem) (heq ▸ List.mem_map_of_mem hitem')
        · exact hdisjoint hgt (List.mem_map_of_mem hitem') (heq ▸ List.mem_map_of_mem hitem)

/-- What is to be done on a cell: the job of the item whose cell it is. -/
def jobOf [DecidableEq κ] (key : ι → κ) (jobs : ι → Job ε α) (items : List ι) (k : κ) : Job ε α :=
  ((items.find? fun item => key item = k).map jobs).getD []

section Finish

variable [DecidableEq κ]

theorem jobOf_key (hnodup : (items.map key).Nodup) {item : ι} (hitem : item ∈ items) :
    jobOf key jobs items (key item) = jobs item := by
  rw [jobOf]
  cases hfound : items.find? fun other => key other = key item with
  | none =>
      have hnot := List.find?_eq_none.mp hfound item hitem
      exact absurd (decide_eq_true rfl) hnot
  | some other =>
      have hkey : key other = key item := by simpa using List.find?_some hfound
      rw [List.inj_on_of_nodup_map hnodup (List.mem_of_find?_eq_some hfound) hitem hkey]
      rfl

theorem jobOf_of_notMem {k : κ} (h : ∀ item ∈ items, key item ≠ k) :
    jobOf key jobs items k = [] := by
  have hnone : (items.find? fun item => key item = k) = none :=
    List.find?_eq_none.mpr fun item hitem => by simpa using h item hitem
  rw [jobOf, hnone]
  rfl

theorem works_start (hdivides : schedule.Divides items) (hnodup : (items.map key).Nodup)
    (store : κ → α) :
    Works key jobs (start schedule items store)
      ⟨store, fun k => some (.running (jobOf key jobs items k)), none⟩ := by
  have hjob : ∀ item ∈ items, some (JobState.running (jobOf key jobs items (key item))) =
      some (.running (jobs item)) := fun item hitem => by rw [jobOf_key hnodup hitem]
  cases schedule with
  | dynamic =>
      refine ⟨rfl, rfl, hjob, fun _ _ hitem => absurd hitem List.not_mem_nil, nofun,
        fun k (hfree : ∀ item ∈ items, key item ≠ k) _ => .inr ?_⟩
      dsimp only
      rw [jobOf_of_notMem hfree]
  | static queues =>
      have hmem : ∀ item, item ∈ items ↔ ∃ thread, item ∈ queues thread := by
        intro item
        rw [← (hdivides : (List.ofFn queues).flatten = items), List.mem_flatten]
        simp only [List.mem_ofFn, exists_exists_eq_and]
      refine ⟨rfl, rfl, fun _ hitem => absurd hitem List.not_mem_nil,
        fun thread item hitem => hjob item ((hmem item).mpr ⟨thread, hitem⟩), nofun,
        fun k _ hidle => .inr ?_⟩
      dsimp only
      rw [jobOf_of_notMem]
      intro item hitem
      obtain ⟨thread, hthread⟩ := (hmem item).mp hitem
      exact hidle thread item hthread

/-- Whatever the schedule and the interleaving, a crew that is done has run every job on
its cell and left the other cells alone. It reports an error if and only if a job has
failed, and the error of one that has. -/
theorem Run.finished (hdivides : schedule.Divides items) (hnodup : (items.map key).Nodup)
    {store : κ → α} {steps : ℕ} (hrun : Run key jobs chunk (start schedule items store) steps crew)
    (hfinished : crew.Finished) :
    (∀ item ∈ items, crew.store (key item) = (runJob (jobs item) (store (key item))).1) ∧
      (∀ k, k ∉ items.map key → crew.store k = store k) ∧
      (crew.firstError = none → ∀ item ∈ items, (runJob (jobs item) (store (key item))).2 = .ok ()) ∧
      ∀ error, crew.firstError = some error →
        ∃ item ∈ items, (runJob (jobs item) (store (key item))).2 = .error error := by
  have htracks : Team.Tracks (jobOf key jobs items) store
      ⟨store, fun k => some (.running (jobOf key jobs items k)), none⟩ := ⟨fun _ => rfl, nofun⟩
  obtain ⟨-, team, hworks, htracks⟩ := hrun.works (apart_start hdivides hnodup store)
    (works_start hdivides hnodup store) htracks
  have hdone : team.Finished := by
    intro k
    apply hworks.idle k
    · rw [hfinished.1]
      nofun
    · intro thread
      rw [hfinished.2 thread]
      nofun
  obtain ⟨hvalues, hreturned⟩ := htracks.done hdone
  rw [hworks.store] at hvalues
  rw [hworks.firstError] at hreturned
  refine ⟨fun item hitem => ?_, fun k hk => ?_, fun hnone item hitem => ?_, fun error herror => ?_⟩
  · rw [hvalues, jobOf_key hnodup hitem]
  · have hfree : ∀ item ∈ items, key item ≠ k := fun item hitem heq =>
      hk (heq ▸ List.mem_map_of_mem hitem)
    rw [hvalues, jobOf_of_notMem hfree]
    rfl
  · have hitself := hreturned hnone (key item)
    rwa [jobOf_key hnodup hitem] at hitself
  · obtain ⟨k, hk⟩ := htracks.reported error (hworks.firstError.trans herror)
    by_cases hmem : ∃ item ∈ items, key item = k
    · obtain ⟨item, hitem, rfl⟩ := hmem
      rw [jobOf_key hnodup hitem] at hk
      exact ⟨item, hitem, hk⟩
    · rw [jobOf_of_notMem fun item hitem heq => hmem ⟨item, hitem, heq⟩] at hk
      cases hk

end Finish

end Crew

end Foundation
