import Recast.Refiner.Plans

/-!
# A worker thread and its requests

The asynchronous refiner as a machine: one thread with its retained context,
the buffers and control blocks of the running call, the open list files, and
the requests the kernel holds. The thread takes its own steps in the order of
the source; the kernel completes requests whenever and in whatever order it likes.
-/

namespace Recast

open Foundation

/-- A filled control block: what the kernel reads, where it puts the bytes, and
the slot in the block's `data`. -/
structure Request where
  call : Nat
  slot : Nat
  plan : Nat
  buffer : Nat
  listNo : Nat
  alignedOffset : Nat
  requestBytes : Nat
  deriving DecidableEq, Repr

/-- An `io_event`. -/
structure Completion where
  request : Request
  res : Int
  res2 : Int
  deriving DecidableEq, Repr

/-- `AioSlot`: the buffer it owns and the plan it was last prepared for. -/
structure AioSlot where
  buffer : Nat
  capacity : Nat
  planIndex : Nat
  deriving DecidableEq, Repr

/-- Where the thread stands in `refine`. -/
inductive Phase where
  /-- Between two calls. -/
  | idle
  /-- `ThreadLocalAioContext::acquire`. -/
  | acquiring
  /-- The head of the loop over windows. -/
  | opening
  /-- The entry of `refine_aio`. -/
  | starting
  /-- `submit_requests`: the control blocks the kernel has not accepted yet, of `total`. -/
  | submitting (queue : List Request) (total : Nat)
  /-- The head of the completion loop. -/
  | waiting
  /-- The loop over the events, with the blocks to submit after it. -/
  | processing (events : List Completion) (submissions : List Request)
  /-- `refine_aio` returns: the first `destroyed` slots are gone. -/
  | leaving (destroyed : Nat)
  /-- `close_files`, with the first error of a `close`. -/
  | closing (firstError : Option Error)
  /-- An exception leaves `refine_aio`: the first `destroyed` slots are gone. -/
  | unwinding (error : Error) (destroyed : Nat)
  /-- The handler destroys the context. -/
  | resetting (error : Error)
  /-- The handler closes the files. -/
  | abandoning (error : Error)

/-- The thread, its context and the kernel's side of it. Buffers have numbers;
`nextBuffer` is the next one the allocator gives. `consumed` records the plans
whose candidates were inserted. -/
structure Worker where
  phase : Phase
  context : Option Nat
  pending : List Request
  finished : List Completion
  memory : Nat → Bytes
  nextBuffer : Nat
  calls : Nat
  call : RefineCall
  slots : List AioSlot
  files : List Nat
  listBegin : Nat
  planBegin : Nat
  nextPlan : Nat
  inflight : Nat
  heap : List Neighbor
  consumed : List Nat
  outcome : Option (Except Error (List Neighbor))

/-- What happens next: a step of the thread, with what the system answers, or
the completion of a request. -/
inductive Choice where
  | begin (call : RefineCall)
  /-- The thread's own next step, in which every call it makes succeeds. -/
  | proceed
  /-- The system call or the allocation of the thread's next step fails. -/
  | fail (error : Error)
  /-- `io_submit` takes this many control blocks. -/
  | accept (count : Nat)
  /-- `io_getevents` returns this many events. -/
  | deliver (count : Nat)
  /-- The kernel completes a pending request. -/
  | complete (index : Nat) (data : Bytes) (res res2 : Int)

namespace Worker

/-- A slot that still exists. -/
def slotAt (w : Worker) (i : Nat) : Option AioSlot :=
  match w.phase with
  | .leaving destroyed => if i < destroyed then none else w.slots[i]?
  | .unwinding _ destroyed => if i < destroyed then none else w.slots[i]?
  | _ => w.slots[i]?

/-- Where the plans of the open window end. -/
def planEnd (w : Worker) : Nat := w.call.planEnd w.listBegin w.planBegin

/-- `prepare_aio` on a slot of the running call. A buffer that is too small is
replaced by a new one. -/
def prepareAio (w : Worker) (slot : Nat) (plan : ReadPlan) (planIndex : Nat) :
    Option (Except Error (Worker × Request)) :=
  match w.slots[slot]? with
  | none => none
  | some old => some do
      let descriptor ← descriptorFor w.files plan.listNo
      let grows := old.capacity < plan.requestBytes
      let buffer := if grows then w.nextBuffer else old.buffer
      let capacity := if grows then plan.requestBytes else old.capacity
      .ok ({ w with
              nextBuffer := if grows then w.nextBuffer + 1 else w.nextBuffer
              slots := w.slots.set slot ⟨buffer, capacity, planIndex⟩ },
        ⟨w.calls, slot, planIndex, buffer, descriptor, plan.alignedOffset, plan.requestBytes⟩)

/-- Prepare a slot for the next plan, if there is one. -/
def prepareNext (w : Worker) (slot : Nat) : Option (Except Error (Worker × List Request)) :=
  if w.nextPlan < w.planEnd then
    match w.call.plans[w.nextPlan]? with
    | none => none
    | some plan =>
        (w.prepareAio slot plan w.nextPlan).map fun prepared =>
          prepared.map fun result => ({ result.1 with nextPlan := w.nextPlan + 1 }, [result.2])
  else some (.ok (w, []))

/-- The loop that prepares the first requests, from slot `slot` on. -/
def prepareInitial (w : Worker) (slot : Nat) : Nat →
    Option (Except Error (Worker × List Request))
  | 0 => some (.ok (w, []))
  | count + 1 =>
      match w.prepareNext slot with
      | none => none
      | some (.error error) => some (.error error)
      | some (.ok (w', requests)) =>
          (w'.prepareInitial (slot + 1) count).map fun prepared =>
            prepared.map fun result => (result.1, requests ++ result.2)

/-- An exception is thrown in `refine_aio`. -/
def throwing (w : Worker) (error : Error) : Worker := { w with phase := .unwinding error 0 }

/-- `io_destroy`, which cancels or waits for every request of the context. -/
def reset (w : Worker) : Worker := { w with context := none, pending := [], finished := [] }

/-- Whether the thread has a context that is large enough for the call. -/
def reusable (w : Worker) : Bool :=
  match w.context with
  | some capacity => decide (w.call.options.queueDepth ≤ capacity)
  | none => false

def acquire (w : Worker) : Worker :=
  if w.reusable then w else { w.reset with context := some w.call.options.queueDepth }

/-- Open the files of the next window, or finish. -/
def openWindow (w : Worker) : Worker :=
  if w.listBegin < w.call.lists.length then
    { w with phase := .starting, files := w.call.window w.listBegin }
  else { w with phase := .idle, outcome := some (.ok (finishTopk w.heap)) }

/-- The slots of `refine_aio`, a page of buffer each, and the first requests. -/
def start (w : Worker) : Option Worker :=
  let depth := w.call.options.queueDepth
  let slots := (List.range depth).map fun i =>
    (⟨w.nextBuffer + i, w.call.layout.pageSize, 0⟩ : AioSlot)
  let w' := { w with
    slots, nextBuffer := w.nextBuffer + depth, nextPlan := w.planBegin, inflight := 0 }
  let initial := min depth (w.planEnd - w.planBegin)
  (w'.prepareInitial 0 initial).map fun prepared =>
    match prepared with
    | .error error => w'.throwing error
    | .ok (w'', requests) => { w'' with phase := .submitting requests initial }

/-- The checks on an event, in the order of the source. -/
def checkEvent (event : Completion) (plan : ReadPlan) : Except Error Unit :=
  if event.res2 ≠ 0 then .error (.runtime "O_DIRECT list read returned nonzero res2")
  else if event.res < 0 then .error (.system "O_DIRECT list read")
  else if event.res ≠ plan.requestBytes then
    .error (.runtime "short O_DIRECT read from list file")
  else .ok ()

/-- Check an event, then insert the candidates of its plan from the slot's buffer. -/
def consume (w : Worker) (event : Completion) (slot : AioSlot) (plan : ReadPlan) :
    Except Error (List Neighbor) := do
  let _ ← checkEvent event plan
  w.call.processPlan (w.memory slot.buffer) plan w.heap

/-- One event of the completion loop. The plan and the bytes are those of the
slot the event names. -/
def processEvent (w : Worker) (event : Completion) (events : List Completion)
    (submissions : List Request) : Option Worker :=
  match w.slots[event.request.slot]? with
  | none => none
  | some slot =>
      match w.call.plans[slot.planIndex]? with
      | none => none
      | some plan =>
          match w.consume event slot plan with
          | .error error => some (w.throwing error)
          | .ok heap =>
              let w' := { w with
                heap, consumed := w.consumed ++ [slot.planIndex], inflight := w.inflight - 1 }
              (w'.prepareNext event.request.slot).map fun prepared =>
                match prepared with
                | .error error => w'.throwing error
                | .ok (w'', requests) =>
                    { w'' with phase := .processing events (submissions ++ requests) }

/-- The thread's own step. -/
def proceed (w : Worker) : Option Worker :=
  match w.phase with
  | .idle => none
  | .acquiring => some { w.acquire with phase := .opening }
  | .opening => some w.openWindow
  | .starting => w.start
  | .submitting [] total => some { w with phase := .waiting, inflight := w.inflight + total }
  | .submitting (_ :: _) _ => none
  | .waiting => if w.inflight = 0 then some { w with phase := .leaving 0 } else none
  | .processing [] [] => some { w with phase := .waiting }
  | .processing [] (request :: rest) =>
      some { w with phase := .submitting (request :: rest) (rest.length + 1) }
  | .processing (event :: events) submissions => w.processEvent event events submissions
  | .leaving destroyed =>
      if destroyed < w.slots.length then some { w with phase := .leaving (destroyed + 1) }
      else some { w with phase := .closing none, slots := [] }
  | .closing firstError =>
      match w.files, firstError with
      | _ :: rest, _ => some { w with files := rest }
      | [], some error => some { w with phase := .resetting error }
      | [], none => some { w with
          phase := .opening, planBegin := w.planEnd, listBegin := w.call.listEnd w.listBegin }
  | .unwinding error destroyed =>
      if destroyed < w.slots.length then some { w with phase := .unwinding error (destroyed + 1) }
      else some { w with phase := .resetting error, slots := [] }
  | .resetting error => some { w.reset with phase := .abandoning error }
  | .abandoning error =>
      match w.files with
      | _ :: rest => some { w with files := rest }
      | [] => some { w with phase := .idle, outcome := some (.error error) }

/-- The thread's step when what it calls fails. -/
def failing (w : Worker) (error : Error) : Option Worker :=
  match w.phase with
  | .acquiring =>
      if w.reusable then none
      else some { w.reset with phase := .idle, outcome := some (.error error) }
  | .opening =>
      if w.listBegin < w.call.lists.length then
        some { w with phase := .resetting error, files := [] }
      else none
  | .starting => some (w.throwing error)
  | .submitting (_ :: _) _ => some (w.throwing error)
  | .waiting => some (w.throwing error)
  | .processing (_ :: _) _ => some (w.throwing error)
  | .closing firstError =>
      match w.files with
      | _ :: rest => some { w with files := rest, phase := .closing (firstError.or (some error)) }
      | [] => none
  | _ => none

/-- `io_submit` takes a part of the control blocks. -/
def accept (w : Worker) (count : Nat) : Option Worker :=
  match w.phase with
  | .submitting queue total =>
      if 0 < count ∧ count ≤ queue.length then
        some { w with
          phase := .submitting (queue.drop count) total
          pending := w.pending ++ queue.take count }
      else none
  | _ => none

/-- `io_getevents` returns the oldest events. -/
def deliver (w : Worker) (count : Nat) : Option Worker :=
  match w.phase with
  | .waiting =>
      if w.inflight ≠ 0 ∧ 0 < count ∧ count ≤ w.finished.length ∧
          count ≤ w.call.options.queueDepth then
        some { w with
          phase := .processing (w.finished.take count) []
          finished := w.finished.drop count }
      else none
  | _ => none

/-- The kernel writes the bytes it read and queues an event. -/
def complete (w : Worker) (index : Nat) (data : Bytes) (res res2 : Int) : Option Worker :=
  match w.pending[index]? with
  | none => none
  | some request => some { w with
      pending := w.pending.eraseIdx index
      finished := w.finished ++ [⟨request, res, res2⟩]
      memory := Function.update w.memory request.buffer data }

/-- A new call on the same thread; one with a queue of one request never gets here. -/
def begin (w : Worker) (call : RefineCall) : Option Worker :=
  match w.phase with
  | .idle =>
      if 1 < call.options.queueDepth then
        some { w with
          phase := .acquiring, call, calls := w.calls + 1, slots := [], files := []
          listBegin := 0, planBegin := 0, nextPlan := 0, inflight := 0, heap := []
          consumed := [], outcome := none }
      else none
  | _ => none

def step (w : Worker) : Choice → Option Worker
  | .begin call => w.begin call
  | .proceed => w.proceed
  | .fail error => w.failing error
  | .accept count => w.accept count
  | .deliver count => w.deliver count
  | .complete index data res res2 => w.complete index data res res2

/-- `n` allowed steps. -/
inductive Steps (allowed : Worker → Choice → Prop) : Nat → Worker → Worker → Prop where
  | refl (w : Worker) : Steps allowed 0 w w
  | step {n : Nat} {w w' w'' : Worker} (choice : Choice) :
      Steps allowed n w w' → allowed w' choice → w'.step choice = some w'' →
        Steps allowed (n + 1) w w''

/-- A thread that has not run a call yet. -/
structure Fresh (w : Worker) : Prop where
  phase : w.phase = .idle
  context : w.context = none
  pending : w.pending = []
  finished : w.finished = []

/-- The calls of a run are planned by the head of `refine`. -/
def Planned (_ : Worker) : Choice → Prop
  | .begin call => ∃ layout nlist options query dimension candidates topk distanceFunction,
      planRefine layout nlist options query dimension candidates topk distanceFunction = .ok call
  | _ => True

end Worker

end Recast
