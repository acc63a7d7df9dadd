import Recast.Refiner.WorkerLaws

/-!
# Lifetime of buffers and descriptors

The handler of `refine` destroys the context before it closes a file, so a
submitted request never outlives its descriptor. The slots of `refine_aio` are
locals: an exception destroys them before it reaches the handler.
-/

namespace Recast

open Foundation

namespace Worker

/-- Every submitted request that has not completed has its slot, with the buffer
and the control block in it, and its open file. -/
def Alive (w : Worker) : Prop :=
  ∀ request ∈ w.pending,
    (∃ slot, w.slotAt request.slot = some slot ∧ slot.buffer = request.buffer) ∧
      request.listNo ∈ w.files

/-- An exception is thrown in `refine_aio`: a call fails, or the result of a read
or a distance does not pass its check. -/
def Throws (w : Worker) : Choice → Prop
  | .fail _ =>
      match w.phase with
      | .starting => True
      | .submitting (_ :: _) _ => True
      | .waiting => True
      | .processing (_ :: _) _ => True
      | _ => False
  | .proceed =>
      match w.phase with
      | .processing (event :: _) _ => ∃ slot plan error,
          w.slots[event.request.slot]? = some slot ∧
          w.call.plans[slot.planIndex]? = some plan ∧ w.consume event slot plan = .error error
      | _ => False
  | _ => False

/-- Whatever is thrown, it is thrown when every submitted request has completed. -/
def Drained (w : Worker) (choice : Choice) : Prop :=
  Planned w choice ∧ (w.Throws choice → w.pending = [])

/-- A submitted request has its open file in every state of every run. -/
theorem descriptors_outlive_requests {n : Nat} {w w' : Worker} (hfresh : w.Fresh)
    (hsteps : Steps Planned n w w') : ∀ request ∈ w'.pending, request.listNo ∈ w'.files := by
  have h := hsteps.consistent (fun _ _ hplanned => hplanned) hfresh.consistent
  intro request hrequest
  have hrunning : w'.Running → request.listNo ∈ w'.files := fun hrunning =>
    (hrunning.tracks.owns request
      (List.mem_append_left _ (List.mem_append_left _ hrequest))).file
  have hsilent : w'.Silent → request.listNo ∈ w'.files := by
    intro hsilent
    rw [hsilent.1] at hrequest
    simp at hrequest
  cases hphase : w'.phase with
  | idle => exact hsilent (by simpa only [Consistent, hphase] using h)
  | abandoning error => exact hsilent (by simpa only [Consistent, hphase] using h)
  | submitting queue total => exact hrunning (by simpa only [Consistent, hphase] using h)
  | waiting => exact hrunning (by simpa only [Consistent, hphase] using h)
  | processing events submissions =>
      exact hrunning (by simpa only [Consistent, hphase] using h)
  | unwinding error destroyed =>
      simp only [Consistent, hphase] at h
      exact h request hrequest
  | resetting error =>
      simp only [Consistent, hphase] at h
      exact h request hrequest
  | _ =>
      simp only [Consistent, hphase] at h
      exact hsilent h.1

/-- No request is left once the exception is on its way. -/
def Settled (w : Worker) : Prop :=
  match w.phase with
  | .unwinding _ _ => w.pending = []
  | .resetting _ => w.pending = []
  | _ => True

theorem Settled.of_pending {w : Worker} (h : w.pending = []) : w.Settled := by
  unfold Settled
  split <;> trivial

theorem Settled.proceed {w w' : Worker} (h : w.Consistent) (hsettled : w.Settled)
    (hquiet : w.Throws .proceed → w.pending = []) (hproceed : w.proceed = some w') :
    w'.Settled := by
  rw [Worker.proceed] at hproceed
  cases hphase : w.phase with
  | starting =>
      simp only [Consistent, hphase] at h
      obtain ⟨slots, nextBuffer, nextPlan, requests, hstart, -⟩ := start_spec h.1 h.2.1 h.2.2
      simp only [hphase, hstart, Option.some.injEq] at hproceed
      subst hproceed
      trivial
  | submitting queue total =>
      cases queue with
      | nil =>
          simp only [hphase, Option.some.injEq] at hproceed
          subst hproceed
          trivial
      | cons request rest => simp [hphase] at hproceed
  | waiting =>
      simp only [hphase, Option.ite_none_right_eq_some, Option.some.injEq] at hproceed
      obtain ⟨-, rfl⟩ := hproceed
      trivial
  | processing events submissions =>
      simp only [Consistent, hphase] at h
      cases events with
      | nil =>
          cases submissions with
          | nil =>
              simp only [hphase, Option.some.injEq] at hproceed
              subst hproceed
              trivial
          | cons request rest =>
              simp only [hphase, Option.some.injEq] at hproceed
              subst hproceed
              trivial
      | cons event events =>
          simp only [hphase] at hproceed
          obtain ⟨slot, plan, hslot, -, -, hplan, ⟨error, hconsume, hthrow⟩ | ⟨heap, slots,
            nextBuffer, nextPlan, added, -, hdone, -⟩⟩ := h.processEvent hphase
          · -- the one way a step of its own throws
            rw [hthrow] at hproceed
            obtain rfl := Option.some.inj hproceed
            refine Settled.of_pending (hquiet ?_)
            simp only [Throws, hphase]
            exact ⟨slot, plan, error, hslot, hplan, hconsume⟩
          · rw [hdone] at hproceed
            obtain rfl := Option.some.inj hproceed
            trivial
  | leaving destroyed =>
      simp only [hphase] at hproceed
      split at hproceed
      next => exact (Option.some.inj hproceed) ▸ trivial
      next => exact (Option.some.inj hproceed) ▸ trivial
  | closing firstError =>
      simp only [Consistent, hphase] at h
      simp only [hphase] at hproceed
      refine Settled.of_pending ?_
      split at hproceed
      next => exact (Option.some.inj hproceed) ▸ h.1.1
      next => exact (Option.some.inj hproceed) ▸ h.1.1
      next => exact (Option.some.inj hproceed) ▸ h.1.1
  | unwinding error destroyed =>
      simp only [Settled, hphase] at hsettled
      simp only [hphase] at hproceed
      refine Settled.of_pending ?_
      split at hproceed
      next => exact (Option.some.inj hproceed) ▸ hsettled
      next => exact (Option.some.inj hproceed) ▸ hsettled
  | resetting error =>
      simp only [hphase, Option.some.injEq] at hproceed
      exact hproceed ▸ Settled.of_pending rfl
  | abandoning error =>
      simp only [Consistent, hphase] at h
      simp only [hphase] at hproceed
      refine Settled.of_pending ?_
      split at hproceed
      next => exact (Option.some.inj hproceed) ▸ h.1
      next => exact (Option.some.inj hproceed) ▸ h.1
  | idle => simp [hphase] at hproceed
  | acquiring =>
      simp only [hphase, Option.some.injEq] at hproceed
      subst hproceed
      trivial
  | opening =>
      simp only [hphase, Option.some.injEq] at hproceed
      subst hproceed
      rw [openWindow]
      split
      next => trivial
      next => trivial

theorem Settled.failing {w w' : Worker} (h : w.Consistent) {error : Error}
    (hquiet : w.Throws (.fail error) → w.pending = []) (hfail : w.failing error = some w') :
    w'.Settled := by
  rw [Worker.failing] at hfail
  have hthrowing : w.Throws (.fail error) → (w.throwing error).Settled := fun hthrows =>
    Settled.of_pending (hquiet hthrows)
  cases hphase : w.phase with
  | acquiring =>
      simp only [hphase, Option.ite_none_left_eq_some, Option.some.injEq] at hfail
      exact hfail.2 ▸ Settled.of_pending rfl
  | opening =>
      simp only [hphase, Option.ite_none_right_eq_some, Option.some.injEq] at hfail
      simp only [Consistent, hphase] at h
      exact hfail.2 ▸ Settled.of_pending h.1.1
  | starting =>
      simp only [hphase, Option.some.injEq] at hfail
      exact hfail ▸ hthrowing (by simp only [Throws, hphase])
  | submitting queue total =>
      cases queue with
      | nil => simp [hphase] at hfail
      | cons request rest =>
          simp only [hphase, Option.some.injEq] at hfail
          exact hfail ▸ hthrowing (by simp only [Throws, hphase])
  | waiting =>
      simp only [hphase, Option.some.injEq] at hfail
      exact hfail ▸ hthrowing (by simp only [Throws, hphase])
  | processing events submissions =>
      cases events with
      | nil => simp [hphase] at hfail
      | cons event events =>
          simp only [hphase, Option.some.injEq] at hfail
          exact hfail ▸ hthrowing (by simp only [Throws, hphase])
  | closing firstError =>
      simp only [Consistent, hphase] at h
      simp only [hphase] at hfail
      split at hfail
      next => exact (Option.some.inj hfail) ▸ Settled.of_pending h.1.1
      next => simp at hfail
  | _ => simp [hphase] at hfail

theorem Settled.step {w w' : Worker} (h : w.Consistent) (hsettled : w.Settled) {choice : Choice}
    (hdrained : Drained w choice) (hstep : w.step choice = some w') : w'.Settled := by
  obtain ⟨-, hquiet⟩ := hdrained
  cases choice with
  | begin call =>
      cases hphase : w.phase with
      | idle =>
          simp only [Worker.step, Worker.begin, hphase, Option.ite_none_right_eq_some,
            Option.some.injEq] at hstep
          exact hstep.2 ▸ trivial
      | _ => simp [Worker.step, Worker.begin, hphase] at hstep
  | proceed => exact hsettled.proceed h hquiet hstep
  | fail error => exact Settled.failing h hquiet hstep
  | accept count =>
      cases hphase : w.phase with
      | submitting queue total =>
          simp only [Worker.step, Worker.accept, hphase, Option.ite_none_right_eq_some,
            Option.some.injEq] at hstep
          exact hstep.2 ▸ trivial
      | _ => simp [Worker.step, Worker.accept, hphase] at hstep
  | deliver count =>
      cases hphase : w.phase with
      | waiting =>
          simp only [Worker.step, Worker.deliver, hphase, Option.ite_none_right_eq_some,
            Option.some.injEq] at hstep
          exact hstep.2 ▸ trivial
      | _ => simp [Worker.step, Worker.deliver, hphase] at hstep
  | complete index data res res2 =>
      obtain ⟨request, hpending, rfl⟩ := complete_eq_some hstep
      unfold Settled at hsettled ⊢
      split at hsettled
      next hphase =>
        rw [hsettled] at hpending
        simp at hpending
      next hphase =>
        rw [hsettled] at hpending
        simp at hpending
      next => trivial

theorem Running.alive {w : Worker} (h : w.Running)
    (hslot : ∀ i, w.slotAt i = w.slots[i]?) : w.Alive := by
  intro request hrequest
  have howns := h.tracks.owns request (List.mem_append_left _ (List.mem_append_left _ hrequest))
  obtain ⟨slot, hown, hbuffer, -⟩ := howns.slot
  exact ⟨⟨slot, (hslot _).trans hown, hbuffer⟩, howns.file⟩

theorem Alive.of_pending {w : Worker} (h : w.pending = []) : w.Alive := by
  intro request hrequest
  rw [h] at hrequest
  simp at hrequest

theorem Settled.alive {w : Worker} (h : w.Consistent) (hsettled : w.Settled) : w.Alive := by
  cases hphase : w.phase with
  | submitting queue total =>
      simp only [Consistent, hphase] at h
      exact h.alive fun i => by simp only [slotAt, hphase]
  | waiting =>
      simp only [Consistent, hphase] at h
      exact h.alive fun i => by simp only [slotAt, hphase]
  | processing events submissions =>
      simp only [Consistent, hphase] at h
      exact h.alive fun i => by simp only [slotAt, hphase]
  | unwinding error destroyed =>
      simp only [Settled, hphase] at hsettled
      exact Alive.of_pending hsettled
  | resetting error =>
      simp only [Settled, hphase] at hsettled
      exact Alive.of_pending hsettled
  | idle =>
      simp only [Consistent, hphase] at h
      exact Alive.of_pending h.1
  | abandoning error =>
      simp only [Consistent, hphase] at h
      exact Alive.of_pending h.1
  | _ =>
      simp only [Consistent, hphase] at h
      exact Alive.of_pending h.1.1

/-- In a run whose exceptions are all thrown with nothing in flight, a slot
outlives every request that refers to it. -/
theorem slots_outlive_requests_when_drained {n : Nat} {w w' : Worker} (hfresh : w.Fresh)
    (hsteps : Steps Drained n w w') : w'.Alive := by
  have hboth : w'.Consistent ∧ w'.Settled := by
    induction hsteps with
    | refl w => exact ⟨hfresh.consistent, Settled.of_pending hfresh.pending⟩
    | step choice _ hdrained hstep ih =>
        obtain ⟨hconsistent, hsettled⟩ := ih hfresh
        exact ⟨hconsistent.step hdrained.1 hstep, hsettled.step hconsistent hdrained hstep⟩
  exact hboth.2.alive hboth.1

/-- The unwinding destroys the slots one after the other, and the kernel need not
complete anything meanwhile. -/
theorem Steps.unwind {w : Worker} {error : Error} {destroyed : Nat}
    (hphase : w.phase = .unwinding error destroyed) (count : Nat)
    (hcount : destroyed + count ≤ w.slots.length) :
    Steps Planned count w { w with phase := .unwinding error (destroyed + count) } := by
  induction count with
  | zero =>
      rw [Nat.add_zero, ← hphase]
      exact Steps.refl w
  | succ count ih =>
      refine (ih (by omega)).step .proceed trivial ?_
      have hmore : destroyed + count < w.slots.length := by omega
      simp only [Worker.step, Worker.proceed, if_pos hmore]
      rfl

/-- What a throwing step leaves behind. -/
theorem Throws.step {w w' : Worker} (h : w.Consistent) {choice : Choice}
    (hthrows : w.Throws choice) (hstep : w.step choice = some w') :
    ∃ error, w' = w.throwing error := by
  cases choice with
  | fail error =>
      refine ⟨error, ?_⟩
      simp only [Throws] at hthrows
      simp only [Worker.step, Worker.failing] at hstep
      split at hthrows
      next hphase => simpa [hphase, eq_comm] using hstep
      next hphase => simpa [hphase, eq_comm] using hstep
      next hphase => simpa [hphase, eq_comm] using hstep
      next hphase => simpa [hphase, eq_comm] using hstep
      next => exact hthrows.elim
  | proceed =>
      simp only [Throws] at hthrows
      split at hthrows
      next event events submissions hphase =>
        obtain ⟨slot, plan, error, hslot, hplan, hconsume⟩ := hthrows
        simp only [Consistent, hphase] at h
        simp only [Worker.step, Worker.proceed, hphase] at hstep
        obtain ⟨slot', plan', hslot', -, -, hplan', hcases⟩ := h.processEvent hphase
        obtain rfl : slot = slot' := Option.some.inj (hslot.symm.trans hslot')
        obtain rfl : plan = plan' := Option.some.inj (hplan.symm.trans hplan')
        rcases hcases with ⟨error', -, hthrow⟩ | ⟨heap, slots, nextBuffer, nextPlan, added, hok, -⟩
        · exact ⟨error', Option.some.inj (hstep.symm.trans hthrow)⟩
        · rw [hconsume] at hok
          simp at hok
      next => exact hthrows.elim
  | _ => exact hthrows.elim

/-- Conversely, from any exception thrown with a request in flight the run can go
on to destroy the slot of that request. -/
theorem throwing_in_flight_frees_slot {n : Nat} {w w' w'' : Worker} (hfresh : w.Fresh)
    (hsteps : Steps Planned n w w') {choice : Choice} (hthrows : w'.Throws choice)
    (hstep : w'.step choice = some w'') (hpending : w'.pending ≠ []) :
    ∃ m v, Steps Planned m w'' v ∧ ¬v.Alive := by
  have h := hsteps.consistent (fun _ _ hplanned => hplanned) hfresh.consistent
  obtain ⟨error, rfl⟩ := hthrows.step h hstep
  have hphase : (w'.throwing error).phase = .unwinding error 0 := rfl
  have hunwind := Steps.unwind hphase w'.slots.length (Nat.zero_add _).le
  refine ⟨_, _, hunwind, fun halive => ?_⟩
  obtain ⟨request, hrequest⟩ := List.exists_mem_of_ne_nil _ hpending
  obtain ⟨⟨slot, hslot, -⟩, -⟩ := halive request hrequest
  simp only [slotAt] at hslot
  split at hslot
  next => simp at hslot
  next hlate =>
    have hlt := (List.getElem?_eq_some_iff.mp hslot).1
    change request.slot < w'.slots.length at hlt
    omega

/-- Two candidates in two lists, read with two requests. -/
def leakCandidates : List ListCandidate :=
  [⟨0, 0, by decide, by decide⟩, ⟨1, 0, by decide, by decide⟩]

def leakLayout : RecordLayout := .oneRecord

def leakOptions : ListFileRefineOptions := ⟨2, 2, Nat.two_pos, by decide⟩

def leakPlans : List ReadPlan := [⟨0, 0, 8, 1, [⟨0, 0⟩]⟩, ⟨1, 0, 8, 1, [⟨1, 0⟩]⟩]

def leakCall : RefineCall where
  layout := leakLayout
  options := leakOptions
  topk := 1
  plans := leakPlans
  lists := [0, 1]
  distance := fun _ => 0

/-- A thread before its first call. -/
def freshWorker (call : RefineCall) : Worker where
  phase := .idle
  context := none
  pending := []
  finished := []
  memory := fun _ => []
  nextBuffer := 0
  calls := 0
  call := call
  slots := []
  files := []
  listBegin := 0
  planBegin := 0
  nextPlan := 0
  inflight := 0
  heap := []
  consumed := []
  outcome := none

/-- The steps of a list of choices. -/
def run (w : Worker) : List Choice → Option Worker
  | [] => some w
  | choice :: choices => (w.step choice).bind fun w' => w'.run choices

theorem Steps.of_run {allowed : Worker → Choice → Prop} {choices : List Choice}
    (hallowed : ∀ w, ∀ choice ∈ choices, allowed w choice) {n : Nat} {w w' w'' : Worker}
    (h : Steps allowed n w w') (hrun : w'.run choices = some w'') :
    Steps allowed (n + choices.length) w w'' := by
  induction choices generalizing n w' with
  | nil => exact Option.some.inj hrun ▸ h
  | cons choice choices ih =>
      rw [run, Option.bind_eq_some_iff] at hrun
      obtain ⟨middle, hstep, hrun⟩ := hrun
      have hmiddle := h.step choice (hallowed w' choice List.mem_cons_self) hstep
      rw [List.length_cons, Nat.add_comm choices.length 1, ← Nat.add_assoc]
      exact ih (fun w choice hchoice => hallowed w choice (List.mem_cons_of_mem _ hchoice)) hmiddle
        hrun

theorem leakCall_planned : Planned (freshWorker leakCall) (.begin leakCall) :=
  ⟨leakLayout, 2, leakOptions, [], 1, leakCandidates, 1, fun _ _ _ => 0, rfl⟩

/-- The first of two reads comes back short while the second is in flight: both
slots are destroyed, and the second request still refers to its one. -/
theorem short_read_frees_pending_slot :
    ¬∀ n w w', Fresh w → Steps Planned n w w' → w'.Alive := by
  intro h
  have hplanned : ∀ w : Worker, ∀ choice ∈ ([.begin leakCall, .proceed, .proceed, .proceed,
      .accept 2, .proceed, .complete 0 [] 0 0, .deliver 1, .proceed, .proceed, .proceed] :
      List Choice), Planned w choice := by
    intro w choice hchoice
    rcases List.mem_cons.mp hchoice with rfl | hchoice
    · exact leakCall_planned
    · simp only [List.mem_cons, List.not_mem_nil, or_false] at hchoice
      rcases hchoice with rfl | rfl | rfl | rfl | rfl | rfl | rfl | rfl | rfl | rfl <;> trivial
  obtain ⟨w', hrun, hpending, hslot⟩ : ∃ w', (freshWorker leakCall).run [.begin leakCall,
      .proceed, .proceed, .proceed, .accept 2, .proceed, .complete 0 [] 0 0, .deliver 1, .proceed,
      .proceed, .proceed] = some w' ∧ w'.pending.map (·.slot) = [1] ∧ w'.slotAt 1 = none :=
    ⟨_, rfl, rfl, rfl⟩
  have hsteps := Steps.of_run hplanned (Steps.refl _) hrun
  have halive := h _ _ _ ⟨rfl, rfl, rfl, rfl⟩ hsteps
  obtain ⟨request, hrequest, hone⟩ :=
    List.mem_map.mp (hpending.symm ▸ List.mem_cons_self (a := 1) (l := []))
  obtain ⟨⟨slot, hsome, -⟩, -⟩ := halive request hrequest
  rw [hone, hslot] at hsome
  exact absurd hsome (by simp)

theorem slots_outlive_requests_in_flight : ∃ n w', Steps Drained n (freshWorker leakCall) w' ∧
    w'.pending.map (·.slot) = [0, 1] ∧ w'.Alive := by
  have hsteps : Steps Drained 5 (freshWorker leakCall) _ :=
    (((((Steps.refl _).step (.begin leakCall) ⟨leakCall_planned, False.elim⟩ rfl).step
      .proceed ⟨trivial, False.elim⟩ rfl).step .proceed ⟨trivial, False.elim⟩ rfl).step
      .proceed ⟨trivial, False.elim⟩ rfl).step (.accept 2) ⟨trivial, False.elim⟩ rfl
  exact ⟨_, _, hsteps, rfl, slots_outlive_requests_when_drained ⟨rfl, rfl, rfl, rfl⟩ hsteps⟩

end Worker

end Recast
