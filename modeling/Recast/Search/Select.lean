import Recast.Checkpoint.PaddedSizes
import Recast.Scan.BlockSelection
import Recast.Refiner.Exactness

/-!
# Searching an index

A search routes its query to lists, scans their resident codes under one range
of query-local tokens, maps the selected tokens back to slots and refines those
by their records.
-/

namespace Recast

open Foundation

variable {config : IndexConfig}

/-- `FaissIvfRouter` with its compact router; `labels` is `IndexPQFastScan::search`. -/
structure FaissIvfRouter where
  trained : Bool
  ntotal : Nat
  labels : List Float32 → Nat → List Int

/-- `route_pq`. -/
def FaissIvfRouter.routePq (router : FaissIvfRouter) (nlist : Nat) (query : List Float32)
    (nprobe : Nat) : Except Error (List UInt32) :=
  if router.trained = false ∨ router.ntotal ≠ nlist ∨ nprobe = 0 then
    .error (.invalidArgument "invalid PQFastScan IVF route input")
  else .ok ((router.labels query (min nprobe nlist)).filterMap fun label =>
    if 0 ≤ label then some (UInt32.ofNat label.toNat) else none)

/-- The exception of the quantizer as one of the index. -/
def ModelError.toError : ModelError → Error
  | .invalidArgument message => .invalidArgument message
  | .runtime message => .runtime message
  | .faiss message => .runtime message
  | .assertion condition => .logic condition

/-- `TokenSpan`: the tokens of one probed list. -/
structure TokenSpan where
  tokenBegin : Nat
  tokenEnd : Nat
  listNo : UInt32

/-- The spans of the probed lists, beside `probedBlocks`. -/
def probedSpans (index : Index) : List UInt32 → Nat → List TokenSpan
  | [], _ => []
  | listNo :: rest, tokenBase =>
      let size := (index.lists listNo.toNat).logicalSize
      if size = 0 then probedSpans index rest tokenBase
      else ⟨tokenBase, tokenBase + size, listNo⟩ :: probedSpans index rest (tokenBase + size)

/-- The slot of a selected token: `lower_bound` is the first span that ends behind it. -/
def locate (spans : List TokenSpan) (candidate : DistanceEstimate Float32) :
    Except Error ListCandidate :=
  match spans.find? fun span => candidate.id < span.tokenEnd with
  | none => .error (.logic "FastScan returned an invalid query-local token")
  | some span =>
      if candidate.id < span.tokenBegin then
        .error (.logic "FastScan returned an invalid query-local token")
      else .ok ⟨span.listNo.toNat, (candidate.id - span.tokenBegin) % 2 ^ 32,
        span.listNo.toNat_lt, Nat.mod_lt _ (by norm_num)⟩

/-- `LocatedSelection`. -/
structure LocatedSelection where
  candidates : List ListCandidate
  probedLists : Nat
  candidateLists : Nat

/-- The parts of an index that its updates leave alone. -/
structure Searcher (config : IndexConfig) where
  quantizer : RecastQuantizer Float32 Float
  layout_eq : config.codes.subquantizers = quantizer.config.subquantizers
  dimension_pos : 0 < quantizer.config.dimension
  router : FaissIvfRouter
  options : ListFileRefineOptions

namespace Searcher

variable (searcher : Searcher config) (faiss : Faiss Float32) (scan : FaissScan) (mode : LutMode)

/-- The constructor of `RecastFastScanner`. -/
def scanner : Except Error RecastFastScanner :=
  if htrained : searcher.quantizer.trained = true then
    .ok ⟨searcher.quantizer, htrained, config.codes, searcher.layout_eq⟩
  else .error (.invalidArgument "scanner requires a trained quantizer")

/-- What `select_candidates_locked` scans: the blocks of the probed lists. -/
def scanProbed (index : Index) (selected : List UInt32) (query : List Float32) (topk : Nat)
    (zScore : Float32) (maxCandidates : Nat) : Except Error (SelectionResult Float32) := do
  let blocks ← searchBlocks index (selected.map UInt32.toNat) topk
  let scanner ← searcher.scanner
  let context ← (searcher.quantizer.prepareQuery machineNumerics faiss query).mapError
    ModelError.toError
  scanner.scanIntervalCandidates scan mode context blocks topk zScore maxCandidates

/-- `select_candidates_locked`. -/
def selectCandidatesLocked (index : Index) (query : List Float32) (topk nprobe : Nat)
    (zScore : Float32) (maxCandidates : Nat) : Except Error LocatedSelection :=
  if topk = 0 ∨ index.activeCount < topk then
    .error (.invalidArgument "invalid external-list search request")
  else do
    let selected ← searcher.router.routePq config.nlist query nprobe
    let found ← searcher.scanProbed faiss scan mode index selected query topk zScore maxCandidates
    if found.candidates.length < topk then
      .error (.logic "interval selection returned fewer than topk rows")
    else
      let spans := probedSpans index selected 0
      let candidates ← found.candidates.mapM (locate spans)
      .ok ⟨candidates, spans.length, (candidates.map ListCandidate.listNo).dedup.length⟩

/-- Open the list files of a refinement. -/
def openFiles (records : Nat → Option Bytes) (lists : List Nat) : Except Error (Nat → Bytes) :=
  if ∃ listNo ∈ lists, records listNo = none then .error (.system "open")
  else .ok fun listNo => (records listNo).getD []

/-- The part of `search` up to the first read: the refinement it starts. -/
def planSearch (index : Index) (query : List Float32) (topk nprobe : Nat) (zScore : Float32)
    (maxCandidates : Nat) (distanceFunction : ExactDistanceFunction) : Except Error RefineCall := do
  let selection ← searcher.selectCandidatesLocked faiss scan mode index query topk nprobe zScore
    maxCandidates
  planRefine config.records config.nlist searcher.options query searcher.quantizer.config.dimension
    selection.candidates topk distanceFunction

/-- `search`, with a queue of one request. -/
def search (system : System) (query : List Float32) (topk nprobe : Nat) (zScore : Float32)
    (maxCandidates : Nat) (distanceFunction : ExactDistanceFunction) :
    Except Error (List Neighbor) := do
  let call ← searcher.planSearch faiss scan mode system.index query topk nprobe zScore maxCandidates
    distanceFunction
  let files ← openFiles system.storage.records call.lists
  call.refine files

end Searcher

end Recast
