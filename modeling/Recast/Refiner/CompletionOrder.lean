import Recast.Refiner.WorkerLaws
import Recast.Refiner.Exactness

/-!
# Completion order

A call whose reads all succeed: the kernel may take the requests in any portions
and complete them in any order, and the thread still consumes every plan once
and ends with the smallest pairs.
-/

namespace Recast

open Foundation

/-- The events of the completion loop that are not processed yet. -/
def Phase.events : Phase → List Completion
  | .processing events _ => events
  | _ => []

/-- The read returned the whole request, and its bytes are in the request's buffer. -/
def Completion.Succeeded (files : Nat → Bytes) (memory : Nat → Bytes) (completion : Completion) :
    Prop :=
  completion.res = completion.request.requestBytes ∧ completion.res2 = 0 ∧
    memory completion.request.buffer = slice (files completion.request.listNo)
      completion.request.alignedOffset completion.request.requestBytes

namespace Worker

/-- A step of one call in which nothing fails: every call the thread makes
succeeds and every read returns the bytes of its file. -/
def Clean (files : Nat → Bytes) (w : Worker) : Choice → Prop
  | .begin _ => False
  | .fail _ => False
  | .complete index data res res2 => ∀ request, w.pending[index]? = some request →
      data = slice (files request.listNo) request.alignedOffset request.requestBytes ∧
        res = request.requestBytes ∧ res2 = 0
  | _ => True

/-- The neighbors of the plans consumed so far. -/
def consumedNeighbors (w : Worker) (files : Nat → Bytes) : List Neighbor :=
  w.consumed.flatMap fun i => (w.call.plans[i]?).toList.flatMap (w.call.planNeighbors files)

/-- A thread in a call in which nothing has failed. -/
structure Exact (files : Nat → Bytes) (call : RefineCall) (calls : Nat) (w : Worker) : Prop where
  running : w.call = call ∧ w.calls = calls
  succeeded : ∀ completion ∈ w.finished ++ w.phase.events,
    completion.Succeeded files w.memory
  heap : w.heap = w.call.push [] (w.consumedNeighbors files)
  phase : match w.phase with
    | .idle => w.outcome = some (.ok (finishTopk w.heap)) ∧
        w.consumed.Perm (List.range call.plans.length)
    | .closing (some _) => False
    | .unwinding _ _ => False
    | .resetting _ => False
    | .abandoning _ => False
    | _ => True

/-- The requests that still have to be prepared, accepted, completed, delivered
or consumed, weighted so that each of these steps lowers the sum. -/
def work (w : Worker) (plans queued events : Nat) : Nat :=
  12 * plans + 11 * queued + 10 * w.pending.length + 9 * w.finished.length + 6 * events

/-- What the windows after the open one cost besides their plans. -/
def laterWindows (w : Worker) (listBegin : Nat) : Nat :=
  (w.call.options.queueDepth + w.call.options.maxOpenFiles + 10) *
    (w.call.lists.length - listBegin)

/-- Every step of a call in which nothing fails lowers this. -/
def remaining (w : Worker) : Nat :=
  let later := w.laterWindows (w.call.listEnd w.listBegin)
  let total := w.call.plans.length
  match w.phase with
  | .acquiring => 12 * (total - w.planBegin) + w.laterWindows w.listBegin + 2
  | .opening => 12 * (total - w.planBegin) + w.laterWindows w.listBegin + 1
  | .starting => 12 * (total - w.planBegin) + later + w.call.options.queueDepth +
      w.files.length + 10
  | .submitting queue _ => w.work (total - w.nextPlan) queue.length 0 + later +
      w.slots.length + w.files.length + 7
  | .waiting => w.work (total - w.nextPlan) 0 0 + later + w.slots.length + w.files.length + 6
  | .processing events submissions =>
      w.work (total - w.nextPlan) submissions.length events.length + later +
        w.slots.length + w.files.length + 8
  | .leaving destroyed => 12 * (total - w.planEnd) + later + (w.slots.length - destroyed) +
      w.files.length + 3
  | .closing _ => 12 * (total - w.planEnd) + later + w.files.length + 2
  | _ => 0

/-- A window takes at least one list, and not more files than allowed. -/
theorem laterWindows_le {w : Worker} (hinside : w.listBegin < w.call.lists.length) :
    w.laterWindows (w.call.listEnd w.listBegin) + w.call.options.queueDepth +
        (w.call.window w.listBegin).length + 10 ≤ w.laterWindows w.listBegin := by
  have hdepth := w.call.options.queueDepth_pos
  have hopen := w.call.options.queueDepth_le
  have hend : w.call.listEnd w.listBegin = min w.call.lists.length
    (w.listBegin + w.call.options.maxOpenFiles) := rfl
  have hwindow : (w.call.window w.listBegin).length ≤ w.call.options.maxOpenFiles := by
    rw [RefineCall.window, slice, List.length_take]
    omega
  have hstep := Nat.mul_le_mul_left
    (w.call.options.queueDepth + w.call.options.maxOpenFiles + 10)
    (show w.call.lists.length - w.call.listEnd w.listBegin + 1 ≤
      w.call.lists.length - w.listBegin by omega)
  rw [Nat.mul_succ] at hstep
  unfold laterWindows
  omega

variable {files : Nat → Bytes} {call : RefineCall} {calls : Nat}
variable {candidates : List ListCandidate}

/-- In a clean call an event never throws. -/
theorem Exact.processEvent (hreads : call.Reads files candidates)
    (hvalid : ∀ candidate ∈ candidates, (call.neighborAt files candidate).Valid) {w : Worker}
    (hrunning : w.Running) (h : w.Exact files call calls) {event : Completion}
    {events : List Completion} {submissions : List Request}
    (hphase : w.phase = .processing (event :: events) submissions) :
    ∃ w', w.processEvent event events submissions = some w' ∧ w'.Exact files call calls ∧
      w'.remaining < w.remaining := by
  obtain ⟨slot, plan, hslot, hbuffer, hindex, hplan, hcases⟩ := hrunning.processEvent hphase
  have hsucceeded := h.succeeded event (List.mem_append_right _ (by
    rw [hphase]
    exact List.mem_cons_self))
  obtain ⟨hres, hres2, hbytes⟩ := hsucceeded
  have howns := hrunning.tracks.owns event.request (List.mem_append_right _ (by
    rw [hphase]
    exact List.mem_cons_self))
  obtain ⟨plan', hplan', hlist, hoffset, hcount⟩ := howns.plan
  rw [← hindex] at hplan'
  obtain rfl : plan = plan' := Option.some.inj (hplan.symm.trans hplan')
  have hcall := h.running.1
  have hmem : plan ∈ call.plans := by
    rw [← hcall]
    exact List.mem_of_getElem? hplan
  -- the buffer holds the bytes of the plan, so the check and the distances cannot throw
  have hconsume : w.consume event slot plan =
      .ok (w.call.push w.heap (w.call.planNeighbors files plan)) := by
    have hcheck : checkEvent event plan = .ok () := by
      rw [checkEvent, if_neg (by simpa using hres2), hres, hcount, if_neg (by omega),
        if_neg (by simp)]
    have hmemory : w.memory slot.buffer = RefineCall.readBytes files plan := by
      rw [hbuffer, hbytes, hlist, hoffset, hcount]
      rfl
    rw [consume, hcheck, ok_bind, hmemory, hcall]
    exact hreads.processPlan hvalid hmem w.heap
  rcases hcases with ⟨error, herror, -⟩ | ⟨heap, slots, nextBuffer, nextPlan, added, hok, hdone,
    hnext, hlength, hrunning'⟩
  · rw [hconsume] at herror
    simp at herror
  · rw [hconsume] at hok
    have hheap := Except.ok.inj hok
    refine ⟨_, hdone, ⟨h.running, ?_, ?_, trivial⟩, ?_⟩
    · intro completion hcompletion
      refine h.succeeded completion ?_
      rw [hphase]
      rcases List.mem_append.mp hcompletion with hcompletion | hcompletion
      · exact List.mem_append_left _ hcompletion
      · exact List.mem_append_right _ (List.mem_cons_of_mem _ hcompletion)
    · change heap = w.call.push [] ((w.consumed ++ [event.request.plan]).flatMap _)
      rw [List.flatMap_append, RefineCall.push_append, ← hheap, h.heap]
      congr 1
      rw [List.flatMap_singleton, ← hindex, hplan]
      simp
    · have hle := hrunning'.next_le
      have hend := (hrunning.canPrepare (Nat.le_refl _)).1
      change nextPlan ≤ w.planEnd at hle
      change w.planEnd ≤ w.call.plans.length at hend
      simp only [remaining, hphase, work, List.length_append, List.length_cons, hlength,
        laterWindows]
      omega

/-- Requests with different slots have different buffers. -/
theorem Owns.buffer_ne {w : Worker} (hbuffers : (w.slots.map (·.buffer)).Nodup)
    {request request' : Request} (h : w.Owns request) (h' : w.Owns request')
    (hne : request.slot ≠ request'.slot) : request.buffer ≠ request'.buffer := by
  obtain ⟨slot, hslot, hbuffer, -⟩ := h.slot
  obtain ⟨slot', hslot', hbuffer', -⟩ := h'.slot
  have hlt := h.slot_lt
  intro heq
  refine hne ((List.getElem?_inj (by simpa using hlt) hbuffers).mp ?_)
  rw [List.getElem?_map, List.getElem?_map, hslot, hslot', Option.map_some, Option.map_some,
    hbuffer, hbuffer', heq]

theorem Exact.complete {w w' : Worker} (hrunning : w.Running) (h : w.Exact files call calls)
    {index : Nat} {data : Bytes} {res res2 : Int}
    (hclean : Clean files w (.complete index data res res2))
    (hcomplete : w.complete index data res res2 = some w') :
    w'.Exact files call calls ∧ w'.finished.length = w.finished.length + 1 ∧
      w'.pending.length + 1 = w.pending.length := by
  obtain ⟨request, hpending, rfl⟩ := complete_eq_some hcomplete
  obtain ⟨hdata, hres, hres2⟩ := hclean request hpending
  have hmem := List.mem_of_getElem? hpending
  have hkeeps : ∀ completion ∈ w.finished ++ w.phase.events,
      completion.Succeeded files (Function.update w.memory request.buffer data) := by
    intro completion hcompletion
    obtain ⟨hres, hres2, hbytes⟩ := h.succeeded completion hcompletion
    have hrest : completion.request ∈ w.finished.map (·.request) ++ w.phase.requests := by
      rcases List.mem_append.mp hcompletion with hfinished | hevents
      · exact List.mem_append_left _ (List.mem_map_of_mem hfinished)
      · refine List.mem_append_right _ ?_
        cases hphase : w.phase with
        | processing events submissions =>
            rw [hphase] at hevents
            exact List.mem_append_left _ (List.mem_map_of_mem hevents)
        | _ => simp [hphase, Phase.events] at hevents
    -- the written buffer belongs to a pending request, and requests own distinct slots
    have hdistinct := hrunning.tracks.distinct
    rw [outstanding, List.append_assoc, List.map_append] at hdistinct
    have hne := (List.nodup_append.mp hdistinct).2.2 _ (List.mem_map_of_mem hmem) _
      (List.mem_map_of_mem hrest)
    have howns := hrunning.tracks.owns request
      (List.mem_append_left _ (List.mem_append_left _ hmem))
    have howns' := hrunning.tracks.owns completion.request (by
      rw [outstanding, List.append_assoc]
      exact List.mem_append_right _ hrest)
    refine ⟨hres, hres2, ?_⟩
    rw [Function.update_of_ne (howns.buffer_ne hrunning.tracks.buffers howns' hne).symm]
    exact hbytes
  refine ⟨⟨h.running, ?_, h.heap, h.phase⟩, List.length_append, ?_⟩
  · intro completion hcompletion
    rcases List.mem_append.mp hcompletion with hcompletion | hevents
    · rcases List.mem_append.mp hcompletion with hfinished | hnew
      · exact hkeeps completion (List.mem_append_left _ hfinished)
      · obtain rfl := List.mem_singleton.mp hnew
        exact ⟨hres, hres2, (Function.update_self _ _ _).trans hdata⟩
    · exact hkeeps completion (List.mem_append_right _ hevents)
  · have hlt := (List.getElem?_eq_some_iff.mp hpending).1
    rw [List.length_eraseIdx, if_pos hlt]
    omega

theorem Exact.accept {w w' : Worker} (h : w.Exact files call calls) {count : Nat}
    (haccept : w.accept count = some w') :
    w'.Exact files call calls ∧ w'.remaining < w.remaining := by
  rw [Worker.accept] at haccept
  cases hphase : w.phase with
  | submitting queue total =>
      simp only [hphase, Option.ite_none_right_eq_some, Option.some.injEq] at haccept
      obtain ⟨⟨hpos, hle⟩, rfl⟩ := haccept
      have hsucceeded := h.succeeded
      rw [hphase] at hsucceeded
      refine ⟨⟨h.running, hsucceeded, h.heap, trivial⟩, ?_⟩
      simp only [remaining, hphase, work, List.length_append, List.length_take,
        List.length_drop, laterWindows]
      omega
  | _ => simp [hphase] at haccept

theorem Exact.deliver {w w' : Worker} (h : w.Exact files call calls) {count : Nat}
    (hdeliver : w.deliver count = some w') :
    w'.Exact files call calls ∧ w'.remaining < w.remaining := by
  rw [Worker.deliver] at hdeliver
  cases hphase : w.phase with
  | waiting =>
      simp only [hphase, Option.ite_none_right_eq_some, Option.some.injEq] at hdeliver
      obtain ⟨⟨-, hpos, hle, -⟩, rfl⟩ := hdeliver
      refine ⟨⟨h.running, ?_, h.heap, trivial⟩, ?_⟩
      · intro completion hcompletion
        refine h.succeeded completion (List.mem_append_left _ ?_)
        rcases List.mem_append.mp hcompletion with hlater | hevent
        · exact List.mem_of_mem_drop hlater
        · exact List.mem_of_mem_take hevent
      · simp only [remaining, hphase, work, List.length_take, List.length_drop, laterWindows,
          List.length_nil]
        omega
  | _ => simp [hphase] at hdeliver

/-- The thread's own steps in a clean call. -/
theorem Exact.proceed (hreads : call.Reads files candidates)
    (hvalid : ∀ candidate ∈ candidates, (call.neighborAt files candidate).Valid) {w w' : Worker}
    (hconsistent : w.Consistent) (h : w.Exact files call calls) (hproceed : w.proceed = some w') :
    w'.Exact files call calls ∧ w'.remaining < w.remaining := by
  have hsucceeded := h.succeeded
  have hstill := h.phase
  rw [Worker.proceed] at hproceed
  cases hphase : w.phase with
  | idle => simp [hphase] at hproceed
  | acquiring =>
      simp only [hphase, Option.some.injEq] at hproceed
      simp only [Consistent, hphase] at hconsistent
      have hfinished := hconsistent.1.2
      subst hproceed
      rw [acquire]
      split
      next =>
        refine ⟨⟨h.running, ?_, h.heap, trivial⟩, ?_⟩
        · simp [hfinished, Phase.events]
        · simp only [remaining, hphase, laterWindows]
          omega
      next =>
        refine ⟨⟨h.running, ?_, h.heap, trivial⟩, ?_⟩
        · simp [reset, Phase.events]
        · simp only [remaining, hphase, laterWindows, reset]
          omega
  | opening =>
      simp only [hphase, Option.some.injEq] at hproceed
      simp only [Consistent, hphase] at hconsistent
      obtain ⟨hsilent, hwindow, hconsumed⟩ := hconsistent
      subst hproceed
      rw [openWindow]
      split
      next hinside =>
        refine ⟨⟨h.running, ?_, h.heap, trivial⟩, ?_⟩
        · simp [hsilent.2, Phase.events]
        · have hle := laterWindows_le hinside
          simp only [remaining, hphase, laterWindows] at hle ⊢
          omega
      next hinside =>
        -- no list is left: all plans lie behind, so the heap is that of the whole call
        have hlast : w.listBegin = w.call.lists.length :=
          Nat.le_antisymm hwindow.listBegin (Nat.not_lt.mp hinside)
        have hall : w.planBegin = call.plans.length := by
          rw [hwindow.planBegin, hlast, hwindow.sorted.planCount_length, h.running.1]
        refine ⟨⟨h.running, ?_, h.heap, rfl, hall ▸ hconsumed⟩, ?_⟩
        · simp [hsilent.2, Phase.events]
        · simp only [remaining, hphase]
          omega
  | starting =>
      simp only [hphase] at hproceed
      simp only [Consistent, hphase] at hconsistent
      obtain ⟨hsilent, hwindow, hconsumed⟩ := hconsistent
      obtain ⟨slots, nextBuffer, nextPlan, requests, hstart, hrunning⟩ :=
        start_spec hsilent hwindow hconsumed
      rw [hstart] at hproceed
      obtain rfl := Option.some.inj hproceed
      refine ⟨⟨h.running, ?_, h.heap, trivial⟩, ?_⟩
      · simp [hsilent.2, Phase.events]
      · -- each prepared plan trades its share of the bound for a request in flight
        have hcounted := hrunning.counted
        have hcovered := hrunning.covered.length_eq
        have hbefore := hconsumed.length_eq
        have hdepth := hrunning.depth
        have hend := hrunning.next_le
        have hplans := (hwindow.canPrepare (Nat.le_refl _)).1
        change nextPlan ≤ w.planEnd at hend
        change w.planEnd ≤ w.call.plans.length at hplans
        simp only [outstanding, hsilent.1, hsilent.2, Phase.requests, List.nil_append,
          List.map_nil, List.length_append, List.length_map, List.length_range] at hcovered hbefore
        dsimp only at hdepth
        simp only [remaining, hphase, work, laterWindows, hsilent.1, hsilent.2, List.length_nil]
        omega
  | submitting queue total =>
      cases queue with
      | nil =>
          simp only [hphase, Option.some.injEq] at hproceed
          subst hproceed
          rw [hphase] at hsucceeded
          refine ⟨⟨h.running, hsucceeded, h.heap, trivial⟩, ?_⟩
          simp only [remaining, hphase, work, laterWindows, List.length_nil]
          omega
      | cons request rest => simp [hphase] at hproceed
  | waiting =>
      simp only [hphase, Option.ite_none_right_eq_some, Option.some.injEq] at hproceed
      simp only [Consistent, hphase] at hconsistent
      obtain ⟨hinflight, rfl⟩ := hproceed
      obtain ⟨hsilent, hnext, -⟩ := hconsistent.finished hphase hinflight
      refine ⟨⟨h.running, ?_, h.heap, trivial⟩, ?_⟩
      · simp [hsilent.2, Phase.events]
      · simp only [remaining, hphase, work, laterWindows, hnext]
        change 12 * (w.call.plans.length - w.planEnd) + _ + _ + _ + 3 < _
        omega
  | processing events submissions =>
      simp only [Consistent, hphase] at hconsistent
      cases events with
      | nil =>
          cases submissions with
          | nil =>
              simp only [hphase, Option.some.injEq] at hproceed
              subst hproceed
              rw [hphase] at hsucceeded
              refine ⟨⟨h.running, hsucceeded, h.heap, trivial⟩, ?_⟩
              simp only [remaining, hphase, work, laterWindows, List.length_nil]
              omega
          | cons request rest =>
              simp only [hphase, Option.some.injEq] at hproceed
              subst hproceed
              rw [hphase] at hsucceeded
              refine ⟨⟨h.running, hsucceeded, h.heap, trivial⟩, ?_⟩
              simp only [remaining, hphase, work, laterWindows, List.length_nil]
              omega
      | cons event events =>
          simp only [hphase] at hproceed
          obtain ⟨w'', hdone, hexact, hlt⟩ := h.processEvent hreads hvalid hconsistent hphase
          obtain rfl := Option.some.inj (hproceed.symm.trans hdone)
          exact ⟨hexact, hlt⟩
  | leaving destroyed =>
      simp only [hphase] at hproceed
      simp only [Consistent, hphase] at hconsistent
      have hfinished := hconsistent.1.2
      split at hproceed
      next hmore =>
        obtain rfl := Option.some.inj hproceed
        refine ⟨⟨h.running, by simp [hfinished, Phase.events], h.heap, trivial⟩, ?_⟩
        simp only [remaining, hphase, laterWindows]
        change 12 * (w.call.plans.length - w.planEnd) + _ + _ + _ + 3 < _
        omega
      next =>
        obtain rfl := Option.some.inj hproceed
        refine ⟨⟨h.running, by simp [hfinished, Phase.events], h.heap, trivial⟩, ?_⟩
        simp only [remaining, hphase, laterWindows]
        change 12 * (w.call.plans.length - w.planEnd) + _ + _ + 2 < _
        omega
  | closing firstError =>
      simp only [hphase] at hproceed hstill
      simp only [Consistent, hphase] at hconsistent
      have hfinished := hconsistent.1.2
      cases firstError with
      -- a call that met no error has none to rethrow
      | some error => exact hstill.elim
      | none =>
          split at hproceed
          next file rest hfiles =>
            obtain rfl := Option.some.inj hproceed
            refine ⟨⟨h.running, by simp [hfinished, Phase.events], h.heap, ?_⟩, ?_⟩
            · simp only
            · simp only [remaining, hphase, laterWindows, hfiles, List.length_cons]
              change 12 * (w.call.plans.length - w.planEnd) + _ + _ + 2 < _
              omega
          next error hnone => simp at hnone
          next =>
            obtain rfl := Option.some.inj hproceed
            refine ⟨⟨h.running, by simp [hfinished, Phase.events], h.heap, trivial⟩, ?_⟩
            simp only [remaining, hphase, laterWindows]
            omega
  | _ =>
      simp only [hphase] at hstill

/-- A clean step keeps the call exact and comes closer to its end. -/
theorem Exact.step (hreads : call.Reads files candidates)
    (hvalid : ∀ candidate ∈ candidates, (call.neighborAt files candidate).Valid) {w w' : Worker}
    (hconsistent : w.Consistent) (h : w.Exact files call calls) {choice : Choice}
    (hclean : Clean files w choice) (hstep : w.step choice = some w') :
    w'.Exact files call calls ∧ w'.remaining < w.remaining := by
  cases choice with
  | begin call => exact hclean.elim
  | fail error => exact hclean.elim
  | proceed => exact h.proceed hreads hvalid hconsistent hstep
  | accept count => exact h.accept hstep
  | deliver count => exact h.deliver hstep
  | complete index data res res2 =>
      have hstill := h.phase
      obtain ⟨request, hpending, hw'⟩ := complete_eq_some hstep
      have hphase' : w'.phase = w.phase := by rw [hw']
      -- a completion needs a request in flight, which rules out the phases without one
      have hnot : ¬w.Silent := by
        intro hsilent
        rw [hsilent.1] at hpending
        simp at hpending
      have hsame : w'.call = w.call ∧ w'.planEnd = w.planEnd ∧ w'.slots = w.slots ∧
          w'.files = w.files ∧ w'.nextPlan = w.nextPlan ∧ w'.listBegin = w.listBegin := by
        rw [hw']
        exact ⟨rfl, rfl, rfl, rfl, rfl, rfl⟩
      obtain ⟨hcall, -, hslots, hfiles, hnext, hlist⟩ := hsame
      cases hphase : w.phase with
      | submitting queue total =>
          simp only [Consistent, hphase] at hconsistent
          obtain ⟨hexact, hfinished, hpendingLt⟩ := h.complete hconsistent hclean hstep
          refine ⟨hexact, ?_⟩
          simp only [remaining, hphase', hphase, work, laterWindows, hcall, hslots, hfiles, hnext,
            hlist]
          omega
      | waiting =>
          simp only [Consistent, hphase] at hconsistent
          obtain ⟨hexact, hfinished, hpendingLt⟩ := h.complete hconsistent hclean hstep
          refine ⟨hexact, ?_⟩
          simp only [remaining, hphase', hphase, work, laterWindows, hcall, hslots, hfiles, hnext,
            hlist]
          omega
      | processing events submissions =>
          simp only [Consistent, hphase] at hconsistent
          obtain ⟨hexact, hfinished, hpendingLt⟩ := h.complete hconsistent hclean hstep
          refine ⟨hexact, ?_⟩
          simp only [remaining, hphase', hphase, work, laterWindows, hcall, hslots, hfiles, hnext,
            hlist]
          omega
      | unwinding error destroyed =>
          simp only [hphase] at hstill
      | resetting error =>
          simp only [hphase] at hstill
      | idle =>
          simp only [Consistent, hphase] at hconsistent
          exact absurd hconsistent hnot
      | abandoning error =>
          simp only [Consistent, hphase] at hconsistent
          exact absurd hconsistent hnot
      | _ =>
          simp only [Consistent, hphase] at hconsistent
          exact absurd hconsistent.1 hnot

/-- A clean call never stops before its end: the thread can go on, or a read it
waits for can complete. -/
theorem Exact.progress (hreads : call.Reads files candidates)
    (hvalid : ∀ candidate ∈ candidates, (call.neighborAt files candidate).Valid) {w : Worker}
    (hconsistent : w.Consistent) (h : w.Exact files call calls) (hphase : w.phase ≠ .idle) :
    ∃ choice w', Clean files w choice ∧ w.step choice = some w' := by
  have hstill := h.phase
  have hany : ∀ choice, Clean files w choice → (w.step choice).isSome →
      ∃ choice w', Clean files w choice ∧ w.step choice = some w' :=
    fun choice hclean hstep => ⟨choice, _, hclean, Option.eq_some_of_isSome hstep⟩
  have hown := hany .proceed trivial
  cases hcases : w.phase with
  | idle => exact absurd hcases hphase
  | acquiring => exact hown (by simp [Worker.step, Worker.proceed, hcases])
  | opening => exact hown (by simp [Worker.step, Worker.proceed, hcases])
  | starting =>
      simp only [Consistent, hcases] at hconsistent
      obtain ⟨slots, nextBuffer, nextPlan, requests, hstart, -⟩ :=
        start_spec hconsistent.1 hconsistent.2.1 hconsistent.2.2
      exact hown (by simp [Worker.step, Worker.proceed, hcases, hstart])
  | submitting queue total =>
      cases queue with
      | nil => exact hown (by simp [Worker.step, Worker.proceed, hcases])
      | cons request rest =>
          exact hany (.accept 1) trivial (by simp [Worker.step, Worker.accept, hcases])
  | waiting =>
      simp only [Consistent, hcases] at hconsistent
      by_cases hinflight : w.inflight = 0
      · exact hown (by simp [Worker.step, Worker.proceed, hcases, if_pos hinflight])
      · cases hfinished : w.finished with
        | cons completion rest =>
            have hdepth : 1 ≤ w.call.options.queueDepth := w.call.options.queueDepth_pos
            exact hany (.deliver 1) trivial
              (by simp [Worker.step, Worker.deliver, hcases, hinflight, hfinished, hdepth])
        | nil =>
            -- every request in flight is still with the kernel
            have hcounted := hconsistent.counted
            rw [outstanding, hfinished, hcases] at hcounted
            cases hpending : w.pending with
            | nil =>
                rw [hpending] at hcounted
                exact absurd hcounted (by simpa [Phase.requests, Phase.uncounted] using hinflight)
            | cons request rest =>
                refine hany (.complete 0 (slice (files request.listNo) request.alignedOffset
                  request.requestBytes) request.requestBytes 0) ?_
                  (by simp [Worker.step, Worker.complete, hpending])
                intro request' hrequest'
                rw [hpending] at hrequest'
                obtain rfl : request = request' := by simpa using hrequest'
                exact ⟨rfl, rfl, rfl⟩
  | processing events submissions =>
      simp only [Consistent, hcases] at hconsistent
      cases events with
      | nil =>
          cases submissions with
          | nil => exact hown (by simp [Worker.step, Worker.proceed, hcases])
          | cons request rest => exact hown (by simp [Worker.step, Worker.proceed, hcases])
      | cons event events =>
          obtain ⟨w', hdone, -⟩ := h.processEvent hreads hvalid hconsistent hcases
          exact hown (by simp [Worker.step, Worker.proceed, hcases, hdone])
  | leaving destroyed =>
      by_cases hmore : destroyed < w.slots.length
      · exact hown (by simp [Worker.step, Worker.proceed, hcases, if_pos hmore])
      · exact hown (by simp [Worker.step, Worker.proceed, hcases, if_neg hmore])
  | closing firstError =>
      cases firstError with
      | some error => simp only [hcases] at hstill
      | none =>
          cases hfiles : w.files with
          | nil => exact hown (by simp [Worker.step, Worker.proceed, hcases, hfiles])
          | cons file rest => exact hown (by simp [Worker.step, Worker.proceed, hcases, hfiles])
  | _ => simp only [hcases] at hstill

/-- A clean run keeps the call exact, and is not longer than what remained. -/
theorem Steps.exact (hreads : call.Reads files candidates)
    (hvalid : ∀ candidate ∈ candidates, (call.neighborAt files candidate).Valid) {n : Nat}
    {w w' : Worker} (hsteps : Steps (Clean files) n w w') (hconsistent : w.Consistent)
    (h : w.Exact files call calls) :
    w'.Consistent ∧ w'.Exact files call calls ∧ n + w'.remaining ≤ w.remaining := by
  induction hsteps with
  | refl w => exact ⟨hconsistent, h, (Nat.zero_add _).le⟩
  | step choice _ hclean hstep ih =>
      obtain ⟨hmiddle, hexact, hle⟩ := ih hconsistent h
      have hplanned : ∀ v, Planned v choice := by
        cases choice with
        | begin call => exact hclean.elim
        | _ => exact fun _ => trivial
      obtain ⟨hexact', hlt⟩ := hexact.step hreads hvalid hmiddle hclean hstep
      exact ⟨hmiddle.step (hplanned _) hstep, hexact', by omega⟩

/-- What can be observed of a call: how many requests the kernel has, and whose events
the thread takes. -/
structure Observed (w : Worker) : Prop where
  inflight : w.pending.length + w.finished.length ≤ w.call.options.queueDepth
  own : ∀ completion ∈ w.finished ++ w.phase.events, completion.request.call = w.calls

theorem Running.observed {w : Worker} (h : w.Running) : w.Observed where
  inflight := by
    have hle := h.tracks.length_le
    have hdepth := h.depth
    rw [outstanding, List.length_append, List.length_append, List.length_map] at hle
    omega
  own := by
    intro completion hcompletion
    refine (h.tracks.owns completion.request ?_).call
    rw [outstanding, List.append_assoc]
    refine List.mem_append_right _ ?_
    rcases List.mem_append.mp hcompletion with hfinished | hevents
    · exact List.mem_append_left _ (List.mem_map_of_mem hfinished)
    · refine List.mem_append_right _ ?_
      cases hphase : w.phase with
      | processing events submissions =>
          rw [hphase] at hevents
          exact List.mem_append_left _ (List.mem_map_of_mem hevents)
      | _ => simp [hphase, Phase.events] at hevents

theorem Silent.observed {w : Worker} (h : w.Silent) (hevents : w.phase.events = []) :
    w.Observed where
  inflight := by
    rw [h.1, h.2]
    exact Nat.zero_le _
  own := by
    rw [h.2, hevents]
    simp

theorem Exact.observed {w : Worker} (hconsistent : w.Consistent)
    (h : w.Exact files call calls) : w.Observed := by
  have hstill := h.phase
  cases hphase : w.phase with
  | submitting queue total =>
      simp only [Consistent, hphase] at hconsistent
      exact hconsistent.observed
  | waiting =>
      simp only [Consistent, hphase] at hconsistent
      exact hconsistent.observed
  | processing events submissions =>
      simp only [Consistent, hphase] at hconsistent
      exact hconsistent.observed
  | idle =>
      simp only [Consistent, hphase] at hconsistent
      exact hconsistent.observed (by rw [hphase]; rfl)
  | abandoning error => simp only [hphase] at hstill
  | unwinding error destroyed => simp only [hphase] at hstill
  | resetting error => simp only [hphase] at hstill
  | _ =>
      simp only [Consistent, hphase] at hconsistent
      exact hconsistent.1.observed (by rw [hphase]; rfl)

/-- A call starts on any idle thread. -/
theorem begin_spec (files : Nat → Bytes) {w : Worker} (hphase : w.phase = .idle) (hdepth : 1 < call.options.queueDepth)
    (hsorted : call.Sorted) (hconsistent : w.Consistent) :
    ∃ w', w.step (.begin call) = some w' ∧ w'.Consistent ∧
      w'.Exact files call (w.calls + 1) := by
  simp only [Consistent, hphase] at hconsistent
  obtain ⟨w', hbegin⟩ : ∃ w', w.step (.begin call) = some w' :=
    ⟨_, by simp only [Worker.step, Worker.begin, hphase, if_pos hdepth]; rfl⟩
  refine ⟨w', hbegin, ?_⟩
  simp only [Worker.step, Worker.begin, hphase, if_pos hdepth, Option.some.injEq] at hbegin
  subst hbegin
  refine ⟨⟨hconsistent, ⟨hsorted, (call.planCount_zero).symm, Nat.zero_le _⟩, List.Perm.refl _⟩,
    ⟨⟨rfl, rfl⟩, ?_, rfl, trivial⟩⟩
  dsimp only
  rw [hconsistent.2]
  simp [Phase.events]

/-- The neighbors of a whole call that consumed every plan. -/
theorem Exact.neighbors_perm {w : Worker} (h : w.Exact files call calls)
    (hconsumed : w.consumed.Perm (List.range call.plans.length)) :
    (w.consumedNeighbors files).Perm (call.plans.flatMap (call.planNeighbors files)) := by
  rw [consumedNeighbors, h.running.1]
  refine (hconsumed.flatMap_right _).trans ?_
  have hrange : (List.range call.plans.length).map (fun i => call.plans[i]?) =
      call.plans.map some := by
    refine List.ext_getElem (by simp) fun i hi hi' => ?_
    have hlt : i < call.plans.length := by simpa using hi'
    simp [hlt]
  have hall : (List.range call.plans.length).flatMap (fun i =>
      (call.plans[i]?).toList.flatMap (call.planNeighbors files)) =
      ((List.range call.plans.length).map (fun i => call.plans[i]?)).flatMap
        fun plan => plan.toList.flatMap (call.planNeighbors files) := by
    rw [List.flatMap_map]
  rw [hall, hrange, List.flatMap_map]
  simp

/-- A refinement over readable files whose exact distances are valid lists the
smallest pairs of all candidates. With one request at a time it returns the list;
with more of them, on a thread with any history, it starts, cannot take more than
a bounded number of steps while no read fails, never has to stop before its end,
and returns the same pairs, whatever order the kernel completes the reads in. -/
theorem refinement_ignores_completion_order (layout : RecordLayout) (nlist : Nat)
    (query : List Float32) (dimension : Nat) (candidates : List ListCandidate) (topk : Nat)
    (distanceFunction : ExactDistanceFunction) (files : Nat → Bytes)
    (hdimension : dimension ≠ 0) (htopk : topk ≠ 0) (hcount : topk ≤ candidates.length)
    (hlists : ∀ candidate ∈ candidates, candidate.listNo < nlist)
    (hreadable : ∀ location ∈ layout.locations candidates, layout.Readable files location)
    (hvalid : ∀ candidate ∈ candidates, (layout.neighborOf
      (fun payload => distanceFunction query payload dimension) files candidate).Valid) :
    ∃ listed, TopPairs topk (candidates.map (layout.neighborOf
        (fun payload => distanceFunction query payload dimension) files)) listed ∧
      ∀ options, ∃ call, planRefine layout nlist options query dimension candidates topk
          distanceFunction = .ok call ∧
        (options.queueDepth = 1 → call.refine files = .ok listed) ∧
        (1 < options.queueDepth → ∀ n w w₀, Fresh w → Steps Planned n w w₀ → w₀.phase = .idle →
          ∃ w₁, w₀.step (.begin call) = some w₁ ∧ ∃ bound, ∀ m w', Steps (Clean files) m w₁ w' →
            m ≤ bound ∧ w'.call = call ∧ w'.calls = w₀.calls + 1 ∧ w'.Observed ∧
            (w'.phase ≠ .idle → ∃ choice w'', Clean files w' choice ∧ w'.step choice = some w'') ∧
            (w'.phase = .idle → w'.consumed.Perm (List.range call.plans.length) ∧
              ∃ out, w'.outcome = some (.ok out) ∧ SamePairs out listed ∧
                TopPairs topk (candidates.map (layout.neighborOf
                  (fun payload => distanceFunction query payload dimension) files)) out)) := by
  obtain ⟨plans, hplanned⟩ := RefineCall.planRefine_readable query distanceFunction hdimension
    htopk hcount hlists hreadable
  have hreads := fun options => RefineCall.planRefine_reads (hplanned options) hreadable
  have hlisted := (hreads ⟨1, 1, Nat.one_pos, Nat.le_refl 1⟩).topPairs hvalid (List.Perm.refl _)
  refine ⟨_, hlisted, fun options => ⟨_, hplanned options, fun _ => ?_, ?_⟩⟩
  · exact (hreads options).refine hvalid
  · intro hdepth n w w₀ hfresh hearlier hidle
    have hconsistent := hearlier.consistent (fun _ _ h => h) hfresh.consistent
    obtain ⟨w₁, hbegin, hconsistent₁, hexact₁⟩ := begin_spec files hidle hdepth
      (hreads options).sorted hconsistent
    refine ⟨w₁, hbegin, w₁.remaining, fun m w' hsteps => ?_⟩
    obtain ⟨hconsistent', hexact, hle⟩ := hsteps.exact (hreads options) hvalid hconsistent₁ hexact₁
    refine ⟨by omega, hexact.running.1, hexact.running.2, hexact.observed hconsistent',
      hexact.progress (hreads options) hvalid hconsistent', fun hdone => ?_⟩
    have hend := hexact.phase
    simp only [hdone] at hend
    have hout := (hreads options).topPairs hvalid (hexact.neighbors_perm hend.2)
    have hheap := hexact.heap
    rw [hexact.running.1] at hheap
    rw [← hheap] at hout
    refine ⟨hend.2, _, hend.1, hout.agree hlisted ?_, hout⟩
    intro neighbor hneighbor
    obtain ⟨candidate, hcandidate, rfl⟩ := List.mem_map.mp hneighbor
    exact hvalid candidate hcandidate

/-- Two records on two list files, with every distance zero. -/
theorem refinement_of_two_lists : ∃ listed : List Neighbor, listed.length = 1 ∧
    ∀ options, ∃ call, planRefine ⟨8, 4, by decide, by decide⟩ 2 options [] 1
        [⟨0, 0, by decide, by decide⟩, ⟨1, 0, by decide, by decide⟩] 1 (fun _ _ _ => 0) = .ok call ∧
      (options.queueDepth = 1 → call.refine (fun _ => List.replicate 8 0) = .ok listed) := by
  have hzero : Neighbor.Valid ⟨0, 0⟩ := by
    refine ⟨rfl, ?_⟩
    rw [float32_lt_iff]
    exact Bool.false_ne_true
  obtain ⟨listed, ⟨hkeys, -⟩, hall⟩ := refinement_ignores_completion_order
    ⟨8, 4, by decide, by decide⟩ 2 [] 1
    [⟨0, 0, by decide, by decide⟩, ⟨1, 0, by decide, by decide⟩] 1 (fun _ _ _ => 0)
    (fun _ => List.replicate 8 0) (by decide) (by decide) (by decide) (by decide)
    (by unfold RecordLayout.Readable; decide) (by
      intro candidate _
      exact ⟨hzero.1, hzero.2⟩)
  refine ⟨listed, ?_, fun options => ?_⟩
  · have hlength := congrArg List.length hkeys
    rw [List.length_map, List.length_take, List.length_insertionSort, List.length_map,
      List.length_map] at hlength
    exact hlength
  · obtain ⟨call, hcall, hsingle, -⟩ := hall options
    exact ⟨call, hcall, hsingle⟩

/-- The code refuses to list the smallest zero pairs. -/
theorem refine_rejects_topk_zero :
    ¬∀ (layout : RecordLayout) (nlist : Nat) (query : List Float32) (dimension : Nat)
      (candidates : List ListCandidate) (topk : Nat) (distanceFunction : ExactDistanceFunction)
      (files : Nat → Bytes) (options : ListFileRefineOptions), dimension ≠ 0 →
      topk ≤ candidates.length → (∀ candidate ∈ candidates, candidate.listNo < nlist) →
      (∀ location ∈ layout.locations candidates, layout.Readable files location) →
      ∃ call, planRefine layout nlist options query dimension candidates topk distanceFunction =
        .ok call := by
  intro h
  obtain ⟨call, hcall⟩ := h ⟨8, 4, by decide, by decide⟩ 2 [] 1
    [⟨0, 0, by decide, by decide⟩, ⟨1, 0, by decide, by decide⟩] 0 (fun _ _ _ => 0)
    (fun _ => List.replicate 8 0) ⟨1, 1, by decide, by decide⟩ (by decide) (by decide) (by decide)
    (by unfold RecordLayout.Readable; decide)
  simp [planRefine] at hcall

end Worker

end Recast
