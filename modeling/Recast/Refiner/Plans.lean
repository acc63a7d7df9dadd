import Recast.Storage.RecordStore
import Recast.Foundation.TopK
import Mathlib.Data.Prod.Lex
import Mathlib.Order.WithBot

/-!
# Read plans

The refiner groups its candidates by list and page, merges neighbouring pages
into one read request each, and computes the exact distance of every candidate
from the bytes of its request.
-/

namespace Recast

open Foundation

/-- A selected row: its list and its offset in the list. -/
structure ListCandidate where
  listNo : Nat
  offset : Nat
  listNo_lt : listNo < 2 ^ 32
  offset_lt : offset < 2 ^ 32
  deriving Repr

instance : DecidableEq ListCandidate := fun x y =>
  decidable_of_iff (x.listNo = y.listNo ∧ x.offset = y.offset) (by cases x; cases y; simp)

/-- An exact result. -/
structure Neighbor where
  id : Nat
  distance : Float32

/-- `ExactPairWorseFirst`. -/
def exactPairWorseFirst (lhs rhs : Neighbor) : Bool :=
  if lhs.distance != rhs.distance then decide (lhs.distance < rhs.distance)
  else decide (lhs.id < rhs.id)

/-- `insert_exact`. -/
def insertExact (topk : Nat) (heap : List Neighbor) (id : Nat) (distance : Float32) :
    Except Error (List Neighbor) :=
  if distance.isFinite = false ∨ distance < 0 then
    .error (.runtime "exact distance function returned an invalid value")
  else .ok (boundedPush exactPairWorseFirst topk heap ⟨id, distance⟩)

/-- `finish_topk`: pop the heap, then reverse. -/
def finishTopk (heap : List Neighbor) : List Neighbor := heap.reverse

/-- A candidate and where its record starts in the buffer of its request. -/
structure CandidateInRequest where
  candidateIndex : Nat
  recordInBuffer : Nat
  deriving DecidableEq, Repr

/-- One read request: whole pages of one list file. -/
structure ReadPlan where
  listNo : Nat
  alignedOffset : Nat
  requestBytes : Nat
  pageCount : Nat
  candidates : List CandidateInRequest
  deriving DecidableEq, Repr

structure Location where
  listNo : Nat
  pageNo : Nat
  candidateIndex : Nat
  recordInPage : Nat
  deriving DecidableEq, Repr

/-- The order the locations are sorted in. -/
def Location.less (lhs rhs : Location) : Bool :=
  if lhs.listNo ≠ rhs.listNo then decide (lhs.listNo < rhs.listNo)
  else if lhs.pageNo ≠ rhs.pageNo then decide (lhs.pageNo < rhs.pageNo)
  else decide (lhs.candidateIndex < rhs.candidateIndex)

/-- The largest `uint64_t`. -/
def uint64Max : Nat := 2 ^ 64 - 1

/-- `checked_multiply`. -/
def checkedMultiply (lhs rhs : Nat) (message : String) : Except Error Nat :=
  if sizeMax < lhs * rhs then .error (.overflow message) else .ok (lhs * rhs)

/-- The locals of `build_read_plans`; the latest plan comes first. -/
structure PlanBuilder where
  plans : List ReadPlan
  previousList : Nat
  previousPage : Nat

namespace RecordLayout

variable (layout : RecordLayout)

def location (candidateIndex : Nat) (candidate : ListCandidate) : Location where
  listNo := candidate.listNo
  pageNo := candidate.offset / layout.recordsPerPage
  candidateIndex := candidateIndex
  recordInPage := candidate.offset % layout.recordsPerPage * layout.recordStride

def locations (candidates : List ListCandidate) : List Location :=
  (candidates.mapIdx layout.location).insertionSort fun lhs rhs => rhs.less lhs = false

/-- Start a request at the page of `location`. -/
def startPlan (plans : List ReadPlan) (location : Location) : Except Error (List ReadPlan) := do
  let byteOffset ← checkedMultiply location.pageNo layout.pageSize
    "list-file read offset overflows"
  if offMax < byteOffset then .error (.overflow "list-file read offset exceeds off_t")
  else .ok (⟨location.listNo, byteOffset, 0, 0, []⟩ :: plans)

/-- The requests with one for a page the latest one does not hold: the next page
of the same list extends it. -/
def adjacentPlans (builder : PlanBuilder) (location : Location) : Except Error (List ReadPlan) :=
  if location.listNo = builder.previousList ∧ builder.previousPage ≠ uint64Max ∧
      location.pageNo = builder.previousPage + 1 then .ok builder.plans
  else layout.startPlan builder.plans location

/-- Make the latest request end with the page of `location`. -/
def addPage (builder : PlanBuilder) (location : Location) : Except Error PlanBuilder :=
  if location.listNo = builder.previousList ∧ location.pageNo = builder.previousPage then
    .ok builder
  else do
    let plans ← layout.adjacentPlans builder location
    match plans with
    | [] => .ok builder
    | plan :: rest =>
        let requestBytes ← checkedMultiply (plan.pageCount + 1) layout.pageSize
          "merged list-file request size overflows"
        .ok ⟨{ plan with pageCount := plan.pageCount + 1, requestBytes } :: rest,
          location.listNo, location.pageNo⟩

/-- Put the candidate of `location` into the latest request. -/
def addCandidate (builder : PlanBuilder) (location : Location) : PlanBuilder :=
  match builder.plans with
  | [] => builder
  | plan :: rest =>
      let firstPage := plan.alignedOffset / layout.pageSize
      let item : CandidateInRequest := ⟨location.candidateIndex,
        (location.pageNo - firstPage) * layout.pageSize + location.recordInPage⟩
      { builder with plans := { plan with candidates := plan.candidates ++ [item] } :: rest }

def addLocation (builder : PlanBuilder) (location : Location) : Except Error PlanBuilder := do
  let builder ← layout.addPage builder location
  .ok (layout.addCandidate builder location)

def buildReadPlans (candidates : List ListCandidate) : Except Error (List ReadPlan) := do
  let builder ← (layout.locations candidates).foldlM layout.addLocation ⟨[], uint32Max, uint64Max⟩
  .ok builder.plans.reverse

end RecordLayout

/-- `distinct_lists`. -/
def distinctLists (plans : List ReadPlan) : List Nat :=
  plans.foldl (fun lists plan =>
    if lists.getLast? = some plan.listNo then lists else lists ++ [plan.listNo]) []

/-- What the constructor of the refiner accepts. -/
structure ListFileRefineOptions where
  queueDepth : Nat
  maxOpenFiles : Nat
  queueDepth_pos : 0 < queueDepth
  queueDepth_le : queueDepth ≤ maxOpenFiles

/-- `ExactDistanceFunction`: of a query and a payload, in a dimension. -/
abbrev ExactDistanceFunction := List Float32 → Bytes → Nat → Float32

/-- What one `refine` call works with once its arguments are checked. -/
structure RefineCall where
  layout : RecordLayout
  options : ListFileRefineOptions
  topk : Nat
  plans : List ReadPlan
  lists : List Nat
  /-- The distance of the call's query to a payload. -/
  distance : Bytes → Float32

/-- The checks and the planning at the head of `refine`. -/
def planRefine (layout : RecordLayout) (nlist : Nat) (options : ListFileRefineOptions)
    (query : List Float32) (dimension : Nat) (candidates : List ListCandidate) (topk : Nat)
    (distanceFunction : ExactDistanceFunction) : Except Error RefineCall :=
  if dimension = 0 ∨ topk = 0 ∨ candidates.length < topk then
    .error (.invalidArgument "invalid list-file refinement request")
  else if ∃ candidate ∈ candidates, nlist ≤ candidate.listNo then
    .error (.outOfRange "refinement candidate list is invalid")
  else do
    let plans ← layout.buildReadPlans candidates
    .ok ⟨layout, options, topk, plans, distinctLists plans,
      fun payload => distanceFunction query payload dimension⟩

namespace RefineCall

variable (call : RefineCall)

/-- One candidate of `process_plan`. -/
def processCandidate (bytes : Bytes) (plan : ReadPlan) (heap : List Neighbor)
    (item : CandidateInRequest) : Except Error (List Neighbor) :=
  if plan.requestBytes < item.recordInBuffer ∨
      plan.requestBytes - item.recordInBuffer < call.layout.recordStride ∨
      call.layout.recordStride < 4 + call.layout.payloadBytes then
    .error (.logic "candidate record is outside its read request")
  else insertExact call.topk heap (ofLittleEndian (slice bytes item.recordInBuffer 4))
    (call.distance (slice bytes (item.recordInBuffer + 4) call.layout.payloadBytes))

def processPlan (bytes : Bytes) (plan : ReadPlan) (heap : List Neighbor) :
    Except Error (List Neighbor) :=
  plan.candidates.foldlM (call.processCandidate bytes plan) heap

/-- Where the lists of the window that starts at `listBegin` end. -/
def listEnd (listBegin : Nat) : Nat := min call.lists.length (listBegin + call.options.maxOpenFiles)

/-- The lists whose files a window opens. -/
def window (listBegin : Nat) : List Nat :=
  slice call.lists listBegin (call.listEnd listBegin - listBegin)

/-- Where the plans of a window end: the scan from `planBegin` on. -/
def planEnd (listBegin planBegin : Nat) : Nat :=
  let last := call.lists.getD (call.listEnd listBegin - 1) 0
  planBegin + ((call.plans.drop planBegin).takeWhile (·.listNo ≤ last)).length

end RefineCall

/-- `descriptor_for`: the files of a window are sorted by list, so the binary
search finds a list exactly when it is among them. -/
def descriptorFor (files : List Nat) (listNo : Nat) : Except Error Nat :=
  if listNo ∈ files then .ok listNo
  else .error (.logic "read plan references an unopened list file")

namespace RefineCall

variable (call : RefineCall)

/-- One plan of `refine_blocking`: `pread`, then `process_plan`. -/
def refinePlan (files : Nat → Bytes) (opened : List Nat) (heap : List Neighbor)
    (plan : ReadPlan) : Except Error (List Neighbor) := do
  let descriptor ← descriptorFor opened plan.listNo
  let bytes := slice (files descriptor) plan.alignedOffset plan.requestBytes
  if bytes.length ≠ plan.requestBytes then .error (.runtime "short read from list file")
  else call.processPlan bytes plan heap

/-- `refine_blocking` on the plans of a window. -/
def refineBlocking (files : Nat → Bytes) (opened : List Nat) (plans : List ReadPlan)
    (heap : List Neighbor) : Except Error (List Neighbor) :=
  plans.foldlM (call.refinePlan files opened) heap

/-- The loop over windows with a queue of one request; every round takes at least one list. -/
def refineWindows (files : Nat → Bytes) :
    Nat → Nat → Nat → List Neighbor → Except Error (List Neighbor)
  | 0, _, _, heap => .ok heap
  | rounds + 1, listBegin, planBegin, heap =>
      if listBegin < call.lists.length then do
        let planEnd := call.planEnd listBegin planBegin
        let heap ← call.refineBlocking files (call.window listBegin)
          (slice call.plans planBegin (planEnd - planBegin)) heap
        refineWindows files rounds (call.listEnd listBegin) planEnd heap
      else .ok heap

/-- `refine` with a queue of one request, on files that open and close. -/
def refine (files : Nat → Bytes) : Except Error (List Neighbor) := do
  let heap ← call.refineWindows files call.lists.length 0 0 []
  .ok (finishTopk heap)

end RefineCall

end Recast
