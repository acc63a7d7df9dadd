import Recast.Refiner.Worker
import Recast.Refiner.BuildPlans
import Mathlib.Data.List.Perm.Basic

/-!
# What a worker thread keeps true

Every request the kernel holds belongs to the running call, to one slot of its
own and to an open file, whatever fails and whenever requests complete.
-/

namespace Recast

open Foundation

/-- The requests that are prepared or consumed in this phase. -/
def Phase.requests : Phase → List Request
  | .submitting queue _ => queue
  | .processing events submissions => events.map (·.request) ++ submissions
  | _ => []

/-- The prepared requests that `inflight` does not count yet. -/
def Phase.uncounted : Phase → Nat
  | .submitting _ total => total
  | .processing _ submissions => submissions.length
  | _ => 0

namespace Worker

/-- The requests that are prepared and whose candidates are not inserted yet. -/
def outstanding (w : Worker) : List Request :=
  w.pending ++ w.finished.map (·.request) ++ w.phase.requests

/-- Nothing is submitted. -/
def Silent (w : Worker) : Prop := w.pending = [] ∧ w.finished = []

/-- What connects a request to the call that prepared it. -/
structure Owns (w : Worker) (request : Request) : Prop where
  call : request.call = w.calls
  slot : ∃ slot, w.slots[request.slot]? = some slot ∧ slot.buffer = request.buffer ∧
    slot.planIndex = request.plan
  file : request.listNo ∈ w.files
  plan : ∃ plan, w.call.plans[request.plan]? = some plan ∧ request.listNo = plan.listNo ∧
    request.alignedOffset = plan.alignedOffset ∧ request.requestBytes = plan.requestBytes

/-- Each of these requests has a slot of its own. -/
structure Tracks (w : Worker) (requests : List Request) : Prop where
  owns : ∀ request ∈ requests, w.Owns request
  distinct : (requests.map (·.slot)).Nodup
  buffers : (w.slots.map (·.buffer)).Nodup
  fresh : ∀ slot ∈ w.slots, slot.buffer < w.nextBuffer

theorem Tracks.subperm {w : Worker} {requests requests' : List Request} (h : w.Tracks requests)
    (hsub : requests'.Subperm requests) : w.Tracks requests' where
  owns request hrequest := h.owns request (hsub.subset hrequest)
  distinct := by
    obtain ⟨middle, hperm, hsublist⟩ := hsub
    exact (hperm.map _).nodup_iff.mp ((hsublist.map _).nodup h.distinct)
  buffers := h.buffers
  fresh := h.fresh

/-- Tracking depends on the slots, the call and the open files only. -/
theorem Tracks.congr {w w' : Worker} {requests : List Request} (h : w.Tracks requests)
    (hslots : w'.slots = w.slots) (hbuffer : w'.nextBuffer = w.nextBuffer)
    (hcall : w'.call = w.call) (hcalls : w'.calls = w.calls) (hfiles : w'.files = w.files) :
    w'.Tracks requests where
  owns request hrequest := by
    obtain ⟨hown, hslot, hfile, hplan⟩ := h.owns request hrequest
    exact ⟨hown.trans hcalls.symm, hslots ▸ hslot, hfiles ▸ hfile, hcall ▸ hplan⟩
  distinct := h.distinct
  buffers := hslots ▸ h.buffers
  fresh := by
    rw [hslots, hbuffer]
    exact h.fresh

theorem Owns.slot_lt {w : Worker} {request : Request} (h : w.Owns request) :
    request.slot < w.slots.length := by
  obtain ⟨slot, hslot, -⟩ := h.slot
  exact (List.getElem?_eq_some_iff.mp hslot).1

/-- There are at most as many requests as slots. -/
theorem Tracks.length_le {w : Worker} {requests : List Request} (h : w.Tracks requests) :
    requests.length ≤ w.slots.length := by
  rw [← List.length_map (·.slot), ← List.length_range (n := w.slots.length)]
  refine (List.subperm_of_subset h.distinct ?_).length_le
  intro i hi
  obtain ⟨request, hrequest, rfl⟩ := List.mem_map.mp hi
  exact List.mem_range.mpr (h.owns request hrequest).slot_lt

theorem prepareAio_spec {w : Worker} {requests : List Request} (h : w.Tracks requests)
    {slot planIndex : Nat} {plan : ReadPlan} (hslot : slot < w.slots.length)
    (hfree : ∀ request ∈ requests, request.slot ≠ slot)
    (hplan : w.call.plans[planIndex]? = some plan) (hfile : plan.listNo ∈ w.files) :
    ∃ slots nextBuffer request, w.prepareAio slot plan planIndex =
        some (.ok ({ w with slots, nextBuffer }, request)) ∧
      slots.length = w.slots.length ∧ request.slot = slot ∧ request.plan = planIndex ∧
      ({ w with slots, nextBuffer } : Worker).Tracks (requests ++ [request]) := by
  have hold := List.getElem?_eq_getElem hslot
  generalize w.slots[slot] = old at hold
  have holdMem := List.mem_of_getElem? hold
  simp only [prepareAio, hold, descriptorFor, if_pos hfile, ok_bind]
  refine ⟨_, _, _, rfl, List.length_set, rfl, rfl, ?_, ?_, ?_, ?_⟩
  · intro request hrequest
    rcases List.mem_append.mp hrequest with hrequest | hrequest
    · obtain ⟨hcall, ⟨own, hown, hbuffer, hindex⟩, hlist, hdescribed⟩ := h.owns request hrequest
      refine ⟨hcall, ⟨own, ?_, hbuffer, hindex⟩, hlist, hdescribed⟩
      rw [List.getElem?_set_ne (hfree request hrequest).symm]
      exact hown
    · obtain rfl := List.mem_singleton.mp hrequest
      refine ⟨rfl, ⟨_, List.getElem?_set_self hslot, rfl, rfl⟩, hfile, plan, hplan, rfl, rfl, rfl⟩
  · rw [List.map_append, List.nodup_append]
    refine ⟨h.distinct, by simp, ?_⟩
    intro i hi j hj
    obtain ⟨request, hrequest, rfl⟩ := List.mem_map.mp hi
    obtain rfl : j = slot := by simpa using hj
    exact hfree request hrequest
  · rw [List.map_set]
    split
    next =>
      refine h.buffers.set ?_
      intro hmem
      obtain ⟨other, hother, heq⟩ := List.mem_map.mp hmem
      exact Nat.lt_irrefl _ (heq ▸ h.fresh other hother)
    next =>
      have hsame : (w.slots.map (·.buffer)).set slot old.buffer = w.slots.map (·.buffer) := by
        refine List.ext_getElem? fun i => ?_
        rw [List.getElem?_set]
        split
        next hi =>
          subst hi
          rw [List.getElem?_map, hold, if_pos (by simpa using hslot), Option.map_some]
        next => rfl
      exact hsame.symm ▸ h.buffers
  · intro other hother
    rcases List.mem_or_eq_of_mem_set hother with hother | rfl
    · have := h.fresh other hother
      dsimp only
      split <;> omega
    · have := h.fresh old holdMem
      dsimp only
      split <;> omega

/-- The files of the plans from `nextPlan` to the end of the window are open. -/
def CanPrepare (w : Worker) : Prop :=
  w.planEnd ≤ w.call.plans.length ∧ ∀ i plan, w.nextPlan ≤ i → i < w.planEnd →
    w.call.plans[i]? = some plan → plan.listNo ∈ w.files

/-- Preparing a free slot adds one request for the next plan, or none at the end
of the window. -/
theorem prepareNext_spec {w : Worker} {requests : List Request} (h : w.Tracks requests)
    (hready : w.CanPrepare) (hle : w.nextPlan ≤ w.planEnd) (slot : Nat)
    (hslot : slot < w.slots.length) (hfree : ∀ request ∈ requests, request.slot ≠ slot) :
    ∃ slots nextBuffer nextPlan added, w.prepareNext slot =
        some (.ok ({ w with slots, nextBuffer, nextPlan }, added)) ∧
      slots.length = w.slots.length ∧ nextPlan = w.nextPlan + added.length ∧
      nextPlan ≤ w.planEnd ∧ (w.nextPlan < w.planEnd → added.length = 1) ∧ added.length ≤ 1 ∧
      (∀ request ∈ added, request.slot = slot) ∧
      List.range nextPlan = List.range w.nextPlan ++ added.map (·.plan) ∧
      ({ w with slots, nextBuffer, nextPlan } : Worker).Tracks (requests ++ added) := by
  rw [prepareNext]
  split
  next hlt =>
    obtain ⟨plan, hplan⟩ : ∃ plan, w.call.plans[w.nextPlan]? = some plan :=
      ⟨_, List.getElem?_eq_getElem (Nat.lt_of_lt_of_le hlt hready.1)⟩
    obtain ⟨slots, nextBuffer, request, hprepare, hlength, hrequestSlot, hrequestPlan, htracks⟩ :=
      prepareAio_spec h hslot hfree hplan (hready.2 _ plan (Nat.le_refl _) hlt hplan)
    refine ⟨slots, nextBuffer, w.nextPlan + 1, [request], ?_, hlength, rfl, hlt, fun _ => rfl,
      Nat.le_refl _, ?_, ?_, htracks.congr rfl rfl rfl rfl rfl⟩
    · simp only [hplan, hprepare]
      rfl
    · intro other hother
      obtain rfl := List.mem_singleton.mp hother
      exact hrequestSlot
    · rw [List.range_succ, List.map_singleton, hrequestPlan]
  next hend =>
    refine ⟨w.slots, w.nextBuffer, w.nextPlan, [], rfl, rfl, rfl, hle,
      fun hlt => absurd hlt hend, Nat.zero_le _, by simp, by simp, ?_⟩
    rw [List.append_nil]
    exact h.congr rfl rfl rfl rfl rfl

/-- The first requests take the slots in order. -/
theorem prepareInitial_spec {w : Worker} {requests : List Request} (h : w.Tracks requests)
    (hready : w.CanPrepare) (slot count : Nat) (hcount : w.nextPlan + count ≤ w.planEnd)
    (hslot : slot + count ≤ w.slots.length) (hfree : ∀ request ∈ requests, request.slot < slot) :
    ∃ slots nextBuffer nextPlan added, w.prepareInitial slot count =
        some (.ok ({ w with slots, nextBuffer, nextPlan }, added)) ∧
      slots.length = w.slots.length ∧ nextPlan = w.nextPlan + count ∧ added.length = count ∧
      List.range nextPlan = List.range w.nextPlan ++ added.map (·.plan) ∧
      ({ w with slots, nextBuffer, nextPlan } : Worker).Tracks (requests ++ added) := by
  induction count generalizing w requests slot with
  | zero =>
      refine ⟨w.slots, w.nextBuffer, w.nextPlan, [], rfl, rfl, rfl, rfl, by simp, ?_⟩
      rw [List.append_nil]
      exact h.congr rfl rfl rfl rfl rfl
  | succ count ih =>
      obtain ⟨slots, nextBuffer, nextPlan, added, hprepare, hlength, hnext, -, hone, -, hslots,
          hrange, htracks⟩ :=
        prepareNext_spec h hready (by omega) slot (by omega)
          fun request hrequest => Nat.ne_of_lt (hfree request hrequest)
      have hadded := hone (by omega)
      obtain ⟨slots', nextBuffer', nextPlan', added', hprepare', hlength', hnext', hadded',
          hrange', htracks'⟩ :=
        ih htracks ⟨hready.1, fun i plan hi => hready.2 i plan (by dsimp only at hi; omega)⟩
          (slot + 1) (by change nextPlan + count ≤ w.planEnd; omega)
          (by dsimp only; omega) (by
            intro request hrequest
            rcases List.mem_append.mp hrequest with hrequest | hrequest
            · exact Nat.lt_succ_of_lt (hfree request hrequest)
            · exact (hslots request hrequest).symm ▸ Nat.lt_succ_self _)
      refine ⟨slots', nextBuffer', nextPlan', added ++ added', ?_, hlength'.trans hlength, ?_, ?_,
        ?_, ?_⟩
      · rw [prepareInitial, hprepare]
        simp only [hprepare']
        rfl
      · rw [hnext']
        dsimp only
        omega
      · rw [List.length_append, hadded, hadded']
        omega
      · rw [hrange', hrange, List.map_append, List.append_assoc]
      · rw [← List.append_assoc]
        exact htracks'

/-- The window of the loop in `refine`: its plans start where the plans of the
earlier lists end. -/
structure AtWindow (w : Worker) : Prop where
  sorted : w.call.Sorted
  planBegin : w.planBegin = w.call.planCount w.listBegin
  listBegin : w.listBegin ≤ w.call.lists.length

structure InWindow (w : Worker) : Prop extends AtWindow w where
  inside : w.listBegin < w.call.lists.length
  files : w.files = w.call.window w.listBegin

theorem AtWindow.planEnd_eq {w : Worker} (h : w.AtWindow)
    (hinside : w.listBegin < w.call.lists.length) :
    w.planEnd = w.call.planCount (w.call.listEnd w.listBegin) := by
  rw [planEnd, h.planBegin, h.sorted.planEnd_eq hinside]

theorem planBegin_le_planEnd (w : Worker) : w.planBegin ≤ w.planEnd := Nat.le_add_right _ _

theorem InWindow.canPrepare {w : Worker} (h : w.InWindow) {nextPlan : Nat}
    (hnext : w.planBegin ≤ nextPlan) : ({ w with nextPlan } : Worker).CanPrepare := by
  have hend := h.planEnd_eq h.inside
  refine ⟨hend ▸ RefineCall.planCount_le _ _, fun i plan hi hlt hplan => ?_⟩
  have hbegin := h.planBegin
  change i < w.planEnd at hlt
  change nextPlan ≤ i at hi
  change plan.listNo ∈ w.files
  rw [h.files]
  rw [hend] at hlt
  exact h.sorted.mem_window (by omega) hlt hplan

/-- The thread between the first `io_submit` of a window and the end of its
completion loop. -/
structure Running (w : Worker) : Prop extends InWindow w where
  depth : w.slots.length = w.call.options.queueDepth
  tracks : w.Tracks w.outstanding
  counted : w.inflight + w.phase.uncounted = w.outstanding.length
  next_ge : w.planBegin ≤ w.nextPlan
  next_le : w.nextPlan ≤ w.planEnd
  full : w.nextPlan = w.planEnd ∨ w.outstanding.length = w.call.options.queueDepth
  covered : (w.consumed ++ w.outstanding.map (·.plan)).Perm (List.range w.nextPlan)

/-- What holds of a thread in each phase. -/
def Consistent (w : Worker) : Prop :=
  match w.phase with
  | .idle => w.Silent
  | .acquiring => w.Silent ∧ w.AtWindow ∧ w.consumed.Perm (List.range w.planBegin)
  | .opening => w.Silent ∧ w.AtWindow ∧ w.consumed.Perm (List.range w.planBegin)
  | .starting => w.Silent ∧ w.InWindow ∧ w.consumed.Perm (List.range w.planBegin)
  | .submitting _ _ => w.Running
  | .waiting => w.Running
  | .processing _ _ => w.Running
  | .leaving _ => w.Silent ∧ w.InWindow ∧ w.consumed.Perm (List.range w.planEnd)
  | .closing _ => w.Silent ∧ w.AtWindow ∧ w.listBegin < w.call.lists.length ∧
      w.consumed.Perm (List.range w.planEnd)
  | .unwinding _ _ => ∀ request ∈ w.pending, request.listNo ∈ w.files
  | .resetting _ => ∀ request ∈ w.pending, request.listNo ∈ w.files
  | .abandoning _ => w.Silent

/-- The first requests of a window. -/
theorem start_spec {w : Worker} (hsilent : w.Silent) (hwindow : w.InWindow)
    (hconsumed : w.consumed.Perm (List.range w.planBegin)) :
    ∃ slots nextBuffer nextPlan requests, w.start = some { w with
        slots, nextBuffer, nextPlan, inflight := 0,
        phase := .submitting requests requests.length } ∧
      ({ w with
          slots, nextBuffer, nextPlan, inflight := 0,
          phase := .submitting requests requests.length } : Worker).Running := by
  obtain ⟨hpending, hfinished⟩ := hsilent
  have hbegin := w.planBegin_le_planEnd
  rw [start]
  generalize hslots : (List.range w.call.options.queueDepth).map (fun i =>
    (⟨w.nextBuffer + i, w.call.layout.pageSize, 0⟩ : AioSlot)) = slots
  have hlength : slots.length = w.call.options.queueDepth := by
    rw [← hslots, List.length_map, List.length_range]
  generalize hinitial : min w.call.options.queueDepth (w.planEnd - w.planBegin) = initial
  have htracks : ({ w with
      slots, nextBuffer := w.nextBuffer + w.call.options.queueDepth
      nextPlan := w.planBegin, inflight := 0 } : Worker).Tracks [] := by
    refine ⟨by simp, by simp, ?_, ?_⟩
    · dsimp only
      rw [← hslots, List.map_map]
      refine List.nodup_range.map fun i j hij => ?_
      simpa using hij
    · intro slot hslot
      dsimp only at hslot ⊢
      rw [← hslots] at hslot
      obtain ⟨i, hi, rfl⟩ := List.mem_map.mp hslot
      have := List.mem_range.mp hi
      dsimp only
      omega
  have hready : ({ w with
      slots, nextBuffer := w.nextBuffer + w.call.options.queueDepth
      nextPlan := w.planBegin, inflight := 0 } : Worker).CanPrepare :=
    hwindow.canPrepare (Nat.le_refl w.planBegin)
  obtain ⟨slots', nextBuffer', nextPlan', added, hprepare, hlength', hnext, hadded, hrange,
      htracks'⟩ :=
    prepareInitial_spec htracks hready 0 initial
      (by change w.planBegin + initial ≤ w.planEnd; omega) (by dsimp only; omega) (by simp)
  dsimp only at hnext
  refine ⟨slots', nextBuffer', nextPlan', added, ?_, ?_⟩
  · rw [hprepare, hadded]
    rfl
  · have houtstanding : ({ w with
        slots := slots', nextBuffer := nextBuffer',
        nextPlan := nextPlan', inflight := 0,
        phase := .submitting added added.length } : Worker).outstanding = added := by
      simp [outstanding, hpending, hfinished, Phase.requests]
    refine ⟨⟨⟨hwindow.sorted, hwindow.planBegin, hwindow.listBegin⟩, hwindow.inside,
      hwindow.files⟩, hlength'.trans hlength, ?_, ?_, ?_, ?_, ?_, ?_⟩
    · rw [houtstanding]
      rw [List.nil_append] at htracks'
      exact htracks'.congr rfl rfl rfl rfl rfl
    · rw [houtstanding]
      exact Nat.zero_add _
    · change w.planBegin ≤ nextPlan'
      omega
    · change nextPlan' ≤ w.planEnd
      omega
    · rw [houtstanding]
      change nextPlan' = w.planEnd ∨ added.length = w.call.options.queueDepth
      omega
    · rw [houtstanding]
      dsimp only
      rw [hrange]
      exact hconsumed.append_right _

/-- Moving requests between the kernel and the thread changes nothing else. -/
theorem Running.move {w : Worker} (h : w.Running) {phase : Phase} {pending : List Request}
    {finished : List Completion} (memory : Nat → Bytes) {inflight : Nat}
    (hperm : (pending ++ finished.map (·.request) ++ phase.requests).Perm w.outstanding)
    (hcounted : inflight + phase.uncounted = w.inflight + w.phase.uncounted) :
    ({ w with phase, pending, finished, memory, inflight } : Worker).Running where
  sorted := h.sorted
  planBegin := h.planBegin
  listBegin := h.listBegin
  inside := h.inside
  files := h.files
  depth := h.depth
  tracks := (h.tracks.subperm hperm.subperm).congr rfl rfl rfl rfl rfl
  counted := hcounted.trans (h.counted.trans hperm.length_eq.symm)
  next_ge := h.next_ge
  next_le := h.next_le
  full := by
    have hlength : (pending ++ finished.map (·.request) ++ phase.requests).length =
      w.outstanding.length := hperm.length_eq
    exact h.full.imp_right hlength.trans
  covered := ((hperm.map _).append_left _).trans h.covered

/-- An event either throws, because of its result or of a distance, or its plan
is consumed and its slot goes to the next plan. -/
theorem Running.processEvent {w : Worker} (h : w.Running) {event : Completion}
    {events : List Completion} {submissions : List Request}
    (hphase : w.phase = .processing (event :: events) submissions) :
    ∃ slot plan, w.slots[event.request.slot]? = some slot ∧ slot.buffer = event.request.buffer ∧
      slot.planIndex = event.request.plan ∧ w.call.plans[slot.planIndex]? = some plan ∧
      ((∃ error, w.consume event slot plan = .error error ∧
          w.processEvent event events submissions = some (w.throwing error)) ∨
        ∃ heap slots nextBuffer nextPlan added, w.consume event slot plan = .ok heap ∧
          w.processEvent event events submissions = some { w with
            heap, slots, nextBuffer, nextPlan,
            consumed := w.consumed ++ [event.request.plan], inflight := w.inflight - 1,
            phase := .processing events (submissions ++ added) } ∧
          nextPlan = w.nextPlan + added.length ∧ slots.length = w.slots.length ∧
          ({ w with
            heap, slots, nextBuffer, nextPlan,
            consumed := w.consumed ++ [event.request.plan], inflight := w.inflight - 1,
            phase := .processing events (submissions ++ added) } : Worker).Running) := by
  -- the event in hand first, then all the others
  have hperm : w.outstanding.Perm (event.request ::
      (w.pending ++ w.finished.map (·.request) ++
        (events.map (·.request) ++ submissions))) := by
    rw [outstanding, hphase, Phase.requests, List.map_cons, List.cons_append]
    exact List.perm_middle
  have htracks := h.tracks.subperm hperm.symm.subperm
  have howns := htracks.owns event.request List.mem_cons_self
  obtain ⟨slot, hslot, hbuffer, hindex⟩ := howns.slot
  obtain ⟨plan, hplan, -⟩ := howns.plan
  refine ⟨slot, plan, hslot, hbuffer, hindex, hindex ▸ hplan, ?_⟩
  rw [Worker.processEvent]
  simp only [hslot, hindex, hplan]
  cases hconsume : w.consume event slot plan with
  | error error => exact Or.inl ⟨error, rfl, rfl⟩
  | ok heap =>
      right
      have hrest := htracks.subperm (List.sublist_cons_self _ _).subperm
      -- its slot is free: no other request owns it, so the next plan may take it
      have hfree := (List.nodup_cons.mp htracks.distinct).1
      obtain ⟨slots, nextBuffer, nextPlan, added, hprepare, hlength, hnext, hle, hone, hmost, -,
          hrange, hprepared⟩ :=
        prepareNext_spec (w := { w with
          heap, consumed := w.consumed ++ [event.request.plan], inflight := w.inflight - 1 })
          (hrest.congr rfl rfl rfl rfl rfl) (h.canPrepare h.next_ge) h.next_le _ howns.slot_lt
          (fun request hrequest heq => hfree (List.mem_map.mpr ⟨request, hrequest, heq⟩))
      have hcount := h.counted
      have hfull := h.full
      rw [hperm.length_eq] at hcount hfull
      rw [hphase, Phase.uncounted] at hcount
      have houtstanding : ({ w with
          heap, slots, nextBuffer, nextPlan,
          consumed := w.consumed ++ [event.request.plan], inflight := w.inflight - 1,
          phase := .processing events (submissions ++ added) } : Worker).outstanding =
          w.pending ++ w.finished.map (·.request) ++ (events.map (·.request) ++ submissions) ++
            added := by
        simp [outstanding, Phase.requests]
      refine ⟨heap, slots, nextBuffer, nextPlan, added, rfl, ?_, hnext, hlength,
        ⟨⟨h.sorted, h.planBegin, h.listBegin⟩, h.inside, h.files⟩, hlength.trans h.depth, ?_, ?_,
        ?_, hle, ?_, ?_⟩
      · simp only [hprepare]
        rfl
      · rw [houtstanding]
        exact hprepared.congr rfl rfl rfl rfl rfl
      · rw [houtstanding]
        simp only [Phase.uncounted, List.length_append, List.length_cons] at hcount ⊢
        omega
      · have := h.next_ge
        dsimp only at hnext ⊢
        omega
      · rw [houtstanding, List.length_append]
        change nextPlan = w.planEnd ∨ _ = w.call.options.queueDepth
        change w.nextPlan < w.planEnd → added.length = 1 at hone
        change nextPlan = w.nextPlan + added.length at hnext
        change nextPlan ≤ w.planEnd at hle
        rw [List.length_cons] at hfull
        have hnextLe := h.next_le
        by_cases hmore : w.nextPlan < w.planEnd
        · have := hone hmore
          omega
        · omega
      · rw [houtstanding]
        dsimp only at hrange ⊢
        rw [hrange, List.map_append, ← List.append_assoc]
        refine List.Perm.append_right _ ?_
        have hcovered := h.covered
        refine List.Perm.trans ?_ hcovered
        rw [List.append_assoc]
        exact ((hperm.map _).symm).append_left _

theorem Running.accept {w w' : Worker} (h : w.Running) {count : Nat}
    (haccept : w.accept count = some w') : w'.Running := by
  rw [Worker.accept] at haccept
  cases hphase : w.phase with
  | submitting queue total =>
      simp only [hphase, Option.ite_none_right_eq_some, Option.some.injEq] at haccept
      obtain ⟨-, rfl⟩ := haccept
      refine h.move w.memory ?_ ?_
      · simp only [outstanding, hphase, Phase.requests]
        have hswap : (w.pending ++ queue.take count ++ w.finished.map (·.request)).Perm
            (w.pending ++ w.finished.map (·.request) ++ queue.take count) := by
          rw [List.append_assoc, List.append_assoc]
          exact List.perm_append_comm.append_left _
        refine (hswap.append_right _).trans ?_
        rw [List.append_assoc _ (queue.take count), List.take_append_drop]
      · rw [hphase]
        rfl
  | _ => simp [hphase] at haccept

theorem Running.deliver {w w' : Worker} (h : w.Running) {count : Nat}
    (hdeliver : w.deliver count = some w') : w'.Running := by
  rw [Worker.deliver] at hdeliver
  cases hphase : w.phase with
  | waiting =>
      simp only [hphase, Option.ite_none_right_eq_some, Option.some.injEq] at hdeliver
      obtain ⟨-, rfl⟩ := hdeliver
      refine h.move w.memory ?_ ?_
      · simp only [outstanding, hphase, Phase.requests, List.append_nil]
        rw [List.append_assoc]
        refine List.Perm.append_left _ (List.perm_append_comm.trans ?_)
        rw [← List.map_append, List.take_append_drop]
      · rw [hphase]
        rfl
  | _ => simp [hphase] at hdeliver

theorem complete_eq_some {w w' : Worker} {index : Nat} {data : Bytes} {res res2 : Int}
    (h : w.complete index data res res2 = some w') :
    ∃ request, w.pending[index]? = some request ∧ w' = { w with
      pending := w.pending.eraseIdx index
      finished := w.finished ++ [⟨request, res, res2⟩]
      memory := Function.update w.memory request.buffer data } := by
  rw [Worker.complete] at h
  cases hpending : w.pending[index]? with
  | none => simp [hpending] at h
  | some request =>
      simp only [hpending, Option.some.injEq] at h
      exact ⟨request, rfl, h.symm⟩

theorem cons_eraseIdx_perm {α : Type*} {xs : List α} {i : Nat} {x : α} (h : xs[i]? = some x) :
    (x :: xs.eraseIdx i).Perm xs := by
  obtain ⟨hi, rfl⟩ := List.getElem?_eq_some_iff.mp h
  exact List.getElem_cons_eraseIdx_perm hi

theorem Running.complete {w w' : Worker} (h : w.Running) {index : Nat} {data : Bytes}
    {res res2 : Int} (hcomplete : w.complete index data res res2 = some w') : w'.Running := by
  obtain ⟨request, hpending, rfl⟩ := complete_eq_some hcomplete
  refine h.move _ ?_ rfl
  rw [outstanding, List.map_append, List.map_singleton]
  refine List.Perm.append_right _ ?_
  rw [← List.append_assoc]
  refine (List.perm_append_singleton _ _).trans ?_
  rw [← List.cons_append]
  exact (cons_eraseIdx_perm hpending).append_right _

theorem AtWindow.next {w : Worker} (h : w.AtWindow)
    (hinside : w.listBegin < w.call.lists.length) :
    ({ w with phase := .opening, planBegin := w.planEnd,
              listBegin := w.call.listEnd w.listBegin } : Worker).AtWindow :=
  ⟨h.sorted, h.planEnd_eq hinside, min_le_left _ _⟩

theorem Silent.of_running {w : Worker} (h : w.outstanding = []) : w.Silent := by
  simp only [outstanding, List.append_eq_nil_iff, List.map_eq_nil_iff] at h
  exact h.1

/-- The window ends when nothing is in flight any more. -/
theorem Running.finished {w : Worker} (h : w.Running) (hphase : w.phase = .waiting)
    (hinflight : w.inflight = 0) :
    w.Silent ∧ w.nextPlan = w.planEnd ∧ w.consumed.Perm (List.range w.planEnd) := by
  have hcounted := h.counted
  rw [hphase, hinflight] at hcounted
  have hnil := List.length_eq_zero_iff.mp hcounted.symm
  have hend : w.nextPlan = w.planEnd := by
    refine h.full.resolve_right fun hfull => ?_
    have := w.call.options.queueDepth_pos
    rw [hnil, List.length_nil] at hfull
    omega
  have hcovered := h.covered
  rw [hnil, List.map_nil, List.append_nil, hend] at hcovered
  exact ⟨Silent.of_running hnil, hend, hcovered⟩

/-- Throwing out of `refine_aio` leaves the requests of the kernel and the files alone. -/
theorem Running.throwing {w : Worker} (h : w.Running) (error : Error) :
    (w.throwing error).Consistent := by
  intro request hrequest
  exact (h.tracks.owns request (List.mem_append_left _ (List.mem_append_left _ hrequest))).file

theorem Silent.throwing {w : Worker} (h : w.Silent) (error : Error) :
    (w.throwing error).Consistent := by
  intro request hrequest
  change request ∈ w.pending at hrequest
  rw [h.1] at hrequest
  simp at hrequest

theorem Consistent.begin {w w' : Worker} (h : w.Consistent) {call : RefineCall}
    (hsorted : call.Sorted) (hbegin : w.begin call = some w') : w'.Consistent := by
  rw [Worker.begin] at hbegin
  cases hphase : w.phase with
  | idle =>
      simp only [hphase, Option.ite_none_right_eq_some, Option.some.injEq] at hbegin
      obtain ⟨-, rfl⟩ := hbegin
      simp only [Consistent, hphase] at h
      exact ⟨h, ⟨hsorted, (call.planCount_zero).symm, Nat.zero_le _⟩, List.Perm.refl _⟩
  | _ => simp [hphase] at hbegin

theorem Consistent.proceed {w w' : Worker} (h : w.Consistent) (hproceed : w.proceed = some w') :
    w'.Consistent := by
  rw [Worker.proceed] at hproceed
  cases hphase : w.phase with
  | idle => simp [hphase] at hproceed
  | acquiring =>
      simp only [hphase, Option.some.injEq] at hproceed
      simp only [Consistent, hphase] at h
      obtain ⟨hsilent, hwindow, hconsumed⟩ := h
      subst hproceed
      rw [acquire]
      split
      next => exact ⟨hsilent, ⟨hwindow.sorted, hwindow.planBegin, hwindow.listBegin⟩, hconsumed⟩
      next =>
        exact ⟨⟨rfl, rfl⟩, ⟨hwindow.sorted, hwindow.planBegin, hwindow.listBegin⟩, hconsumed⟩
  | opening =>
      simp only [hphase, Option.some.injEq] at hproceed
      simp only [Consistent, hphase] at h
      obtain ⟨hsilent, hwindow, hconsumed⟩ := h
      subst hproceed
      rw [openWindow]
      split
      next hinside =>
        exact ⟨hsilent, ⟨⟨hwindow.sorted, hwindow.planBegin, hwindow.listBegin⟩, hinside, rfl⟩,
          hconsumed⟩
      next => exact hsilent
  | starting =>
      simp only [hphase] at hproceed
      simp only [Consistent, hphase] at h
      obtain ⟨hsilent, hwindow, hconsumed⟩ := h
      obtain ⟨slots, nextBuffer, nextPlan, requests, hstart, hrunning⟩ :=
        start_spec hsilent hwindow hconsumed
      rw [hstart] at hproceed
      obtain rfl := Option.some.inj hproceed
      exact hrunning
  | submitting queue total =>
      simp only [Consistent, hphase] at h
      cases queue with
      | nil =>
          simp only [hphase, Option.some.injEq] at hproceed
          subst hproceed
          -- everything is submitted: the worker waits with the same requests in flight
          refine h.move w.memory ?_ ?_
          · simp only [outstanding, hphase, Phase.requests]
            exact List.Perm.refl _
          · rw [hphase]
            rfl
      | cons request rest => simp [hphase] at hproceed
  | waiting =>
      simp only [hphase, Option.ite_none_right_eq_some, Option.some.injEq] at hproceed
      simp only [Consistent, hphase] at h
      obtain ⟨hinflight, rfl⟩ := hproceed
      obtain ⟨hsilent, -, hconsumed⟩ := h.finished hphase hinflight
      exact ⟨hsilent, ⟨⟨h.sorted, h.planBegin, h.listBegin⟩, h.inside, h.files⟩, hconsumed⟩
  | processing events submissions =>
      simp only [Consistent, hphase] at h
      cases events with
      | nil =>
          cases submissions with
          | nil =>
              simp only [hphase, Option.some.injEq] at hproceed
              subst hproceed
              refine h.move w.memory ?_ ?_
              · simp only [outstanding, hphase, Phase.requests]
                exact List.Perm.refl _
              · rw [hphase]
                rfl
          | cons request rest =>
              simp only [hphase, Option.some.injEq] at hproceed
              subst hproceed
              refine h.move w.memory ?_ ?_
              · simp only [outstanding, hphase, Phase.requests]
                exact List.Perm.refl _
              · rw [hphase]
                rfl
      | cons event events =>
          simp only [hphase] at hproceed
          obtain ⟨slot, plan, -, -, -, -, ⟨error, -, hthrow⟩ | ⟨heap, slots, nextBuffer, nextPlan,
            added, -, hdone, -, -, hrunning⟩⟩ := h.processEvent hphase
          · -- a short or failed read throws with its slot still in flight
            rw [hthrow] at hproceed
            obtain rfl := Option.some.inj hproceed
            exact h.throwing error
          · rw [hdone] at hproceed
            obtain rfl := Option.some.inj hproceed
            exact hrunning
  | leaving destroyed =>
      simp only [hphase] at hproceed
      simp only [Consistent, hphase] at h
      obtain ⟨hsilent, hwindow, hconsumed⟩ := h
      split at hproceed
      next =>
        obtain rfl := Option.some.inj hproceed
        exact ⟨hsilent, ⟨⟨hwindow.sorted, hwindow.planBegin, hwindow.listBegin⟩, hwindow.inside,
          hwindow.files⟩, hconsumed⟩
      next =>
        obtain rfl := Option.some.inj hproceed
        exact ⟨hsilent, ⟨hwindow.sorted, hwindow.planBegin, hwindow.listBegin⟩, hwindow.inside,
          hconsumed⟩
  | closing firstError =>
      simp only [Consistent, hphase] at h
      obtain ⟨hsilent, hwindow, hinside, hconsumed⟩ := h
      simp only [hphase] at hproceed
      split at hproceed
      next =>
        obtain rfl := Option.some.inj hproceed
        simp only [Consistent]
        exact ⟨hsilent, ⟨hwindow.sorted, hwindow.planBegin, hwindow.listBegin⟩, hinside, hconsumed⟩
      next =>
        obtain rfl := Option.some.inj hproceed
        -- the call returns: nothing may be in flight any more
        intro request hrequest
        rw [hsilent.1] at hrequest
        simp at hrequest
      next =>
        obtain rfl := Option.some.inj hproceed
        exact ⟨hsilent, hwindow.next hinside, hconsumed⟩
  | unwinding error destroyed =>
      simp only [hphase] at hproceed
      simp only [Consistent, hphase] at h
      split at hproceed
      next =>
        obtain rfl := Option.some.inj hproceed
        exact h
      next =>
        obtain rfl := Option.some.inj hproceed
        exact h
  | resetting error =>
      simp only [hphase, Option.some.injEq] at hproceed
      subst hproceed
      exact ⟨rfl, rfl⟩
  | abandoning error =>
      simp only [hphase] at hproceed
      simp only [Consistent, hphase] at h
      split at hproceed
      next =>
        obtain rfl := Option.some.inj hproceed
        simp only [Consistent]
        exact h
      next =>
        obtain rfl := Option.some.inj hproceed
        exact h

theorem Consistent.failing {w w' : Worker} (h : w.Consistent) {error : Error}
    (hfail : w.failing error = some w') : w'.Consistent := by
  rw [Worker.failing] at hfail
  cases hphase : w.phase with
  | acquiring =>
      simp only [hphase, Option.ite_none_left_eq_some, Option.some.injEq] at hfail
      obtain ⟨-, rfl⟩ := hfail
      exact ⟨rfl, rfl⟩
  | opening =>
      simp only [hphase, Option.ite_none_right_eq_some, Option.some.injEq] at hfail
      simp only [Consistent, hphase] at h
      obtain ⟨-, rfl⟩ := hfail
      intro request hrequest
      rw [h.1.1] at hrequest
      simp at hrequest
  | starting =>
      simp only [hphase, Option.some.injEq] at hfail
      simp only [Consistent, hphase] at h
      exact hfail ▸ h.1.throwing error
  | submitting queue total =>
      simp only [Consistent, hphase] at h
      cases queue with
      | nil => simp [hphase] at hfail
      | cons request rest =>
          simp only [hphase, Option.some.injEq] at hfail
          exact hfail ▸ h.throwing error
  | waiting =>
      simp only [hphase, Option.some.injEq] at hfail
      simp only [Consistent, hphase] at h
      exact hfail ▸ h.throwing error
  | processing events submissions =>
      simp only [Consistent, hphase] at h
      cases events with
      | nil => simp [hphase] at hfail
      | cons event events =>
          simp only [hphase, Option.some.injEq] at hfail
          exact hfail ▸ h.throwing error
  | closing firstError =>
      simp only [Consistent, hphase] at h
      simp only [hphase] at hfail
      split at hfail
      next =>
        obtain rfl := Option.some.inj hfail
        obtain ⟨hsilent, hwindow, hinside, hconsumed⟩ := h
        exact ⟨hsilent, ⟨hwindow.sorted, hwindow.planBegin, hwindow.listBegin⟩, hinside, hconsumed⟩
      next => simp at hfail
  | _ => simp [hphase] at hfail

theorem Consistent.complete {w w' : Worker} (h : w.Consistent) {index : Nat} {data : Bytes}
    {res res2 : Int} (hcomplete : w.complete index data res res2 = some w') :
    w'.Consistent := by
  obtain ⟨request, hpending, hw'⟩ := complete_eq_some hcomplete
  have hnot : ¬w.Silent := by
    intro hsilent
    rw [hsilent.1] at hpending
    simp at hpending
  have hphase' : w'.phase = w.phase := by rw [hw']
  cases hphase : w.phase with
  | submitting queue total =>
      simp only [Consistent, hphase] at h
      rw [Consistent, hphase', hphase]
      exact h.complete hcomplete
  | waiting =>
      simp only [Consistent, hphase] at h
      rw [Consistent, hphase', hphase]
      exact h.complete hcomplete
  | processing events submissions =>
      simp only [Consistent, hphase] at h
      rw [Consistent, hphase', hphase]
      exact h.complete hcomplete
  | unwinding error destroyed =>
      simp only [Consistent, hphase] at h
      rw [Consistent, hphase', hphase, hw']
      exact fun request hrequest => h request (List.mem_of_mem_eraseIdx hrequest)
  | resetting error =>
      simp only [Consistent, hphase] at h
      rw [Consistent, hphase', hphase, hw']
      exact fun request hrequest => h request (List.mem_of_mem_eraseIdx hrequest)
  | idle => exact absurd (by simpa only [Consistent, hphase] using h) hnot
  | abandoning error => exact absurd (by simpa only [Consistent, hphase] using h) hnot
  | _ =>
      simp only [Consistent, hphase] at h
      exact absurd h.1 hnot

/-- Every step of the thread and of the kernel keeps the thread consistent. -/
theorem Consistent.step {w w' : Worker} (h : w.Consistent) {choice : Choice}
    (hplanned : Planned w choice) (hstep : w.step choice = some w') : w'.Consistent := by
  cases choice with
  | begin call =>
      obtain ⟨layout, nlist, options, query, dimension, candidates, topk, distance, hplan⟩ :=
        hplanned
      exact h.begin (planRefine_sorted hplan) hstep
  | proceed => exact h.proceed hstep
  | fail error => exact h.failing hstep
  | accept count =>
      cases hphase : w.phase with
      | submitting queue total =>
          simp only [Consistent, hphase] at h
          have hrunning := h.accept hstep
          simp only [Worker.step, Worker.accept, hphase, Option.ite_none_right_eq_some,
            Option.some.injEq] at hstep
          obtain ⟨-, rfl⟩ := hstep
          exact hrunning
      | _ => simp [Worker.step, Worker.accept, hphase] at hstep
  | deliver count =>
      cases hphase : w.phase with
      | waiting =>
          simp only [Consistent, hphase] at h
          have hrunning := h.deliver hstep
          simp only [Worker.step, Worker.deliver, hphase, Option.ite_none_right_eq_some,
            Option.some.injEq] at hstep
          obtain ⟨-, rfl⟩ := hstep
          exact hrunning
      | _ => simp [Worker.step, Worker.deliver, hphase] at hstep
  | complete index data res res2 => exact h.complete hstep

theorem Fresh.consistent {w : Worker} (h : w.Fresh) : w.Consistent := by
  rw [Consistent, h.phase]
  exact ⟨h.pending, h.finished⟩

/-- Every state a thread can reach is consistent. -/
theorem Steps.consistent {allowed : Worker → Choice → Prop}
    (hallowed : ∀ w choice, allowed w choice → Planned w choice) {n : Nat} {w w' : Worker}
    (h : Steps allowed n w w') (hw : w.Consistent) : w'.Consistent := by
  induction h with
  | refl w => exact hw
  | step choice _ hchoice hstep ih => exact (ih hw).step (hallowed _ choice hchoice) hstep

end Worker

end Recast
