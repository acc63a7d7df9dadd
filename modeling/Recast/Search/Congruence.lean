import Recast.Search.Nearest

/-!
# Searches and spare capacity

A search reads the padded rows of the probed lists and the records of its candidates. What
lies behind them in the buffers and in the files, and how much of it there is, changes neither
its result nor its exception.
-/

namespace Recast

open Foundation

variable {config : IndexConfig}

/-! ### Blocks -/

/-- The accumulation loop of Faiss reads the codes of the padded rows. -/
def FaissScan.ReadsPadded (faiss : FaissScan) : Prop :=
  ∀ (paddedSize subquantizers : Nat) (codes codes' : Bytes) (values : List UInt8),
    codes.take (paddedSize * (subquantizers / 2)) = codes'.take (paddedSize * (subquantizers / 2)) →
    faiss.pq4AccumulateLoop paddedSize subquantizers codes values =
      faiss.pq4AccumulateLoop paddedSize subquantizers codes' values

/-- The block without the bytes behind its padded rows. -/
def CodeBlockView.trimmed (layout : CodeLayout) (block : CodeBlockView) : CodeBlockView :=
  { block with
    packedCodes := block.packedCodes.map (List.take (block.paddedSize * layout.codeSize))
    packedMetadata := block.packedMetadata.map (List.take (block.paddedSize * 3)) }

theorem CodeBlockView.idAt_trimmed (layout : CodeLayout) (block : CodeBlockView) (row : Nat) :
    (block.trimmed layout).idAt row = block.idAt row := rfl

section Lanes

variable {layout : CodeLayout} {paddedSize row : Nat}

theorem unpackRow_take (codes : Bytes) (hpadded : paddedSize % kUpdateBlockSize = 0)
    (hrow : row < paddedSize) :
    layout.unpackRow (codes.take (paddedSize * layout.codeSize)) row = layout.unpackRow codes row :=
  congrArg Posting.code (@MemoryList.posting_trimmed layout ⟨codes, [], 0, paddedSize⟩ row hpadded hrow)

theorem load_take (metadata : Bytes) (hpadded : paddedSize % kUpdateBlockSize = 0)
    (hrow : row < paddedSize) :
    Metadata.load (metadata.take (paddedSize * 3)) row = Metadata.load metadata row :=
  congrArg Posting.metadata
    (@MemoryList.posting_trimmed .oneByte ⟨[], metadata, 0, paddedSize⟩ row hpadded hrow)

/-- A dot product reads the lane of its row. -/
theorem accumulateExactPq4Lut_congr {F : Type} [Add F] [Zero F] {codes codes' : Bytes}
    (h : layout.unpackRow codes row = layout.unpackRow codes' row) (lut : List F) :
    accumulateExactPq4Lut layout codes lut row = accumulateExactPq4Lut layout codes' lut row := by
  refine List.foldl_ext _ _ _ fun sum m hm => ?_
  have hlt := List.mem_range.mp hm
  rw [← layout.element_unpackRow _ _ hlt, h, layout.element_unpackRow _ _ hlt]

end Lanes

namespace RecastFastScanner

variable {scanner : RecastFastScanner} {faiss : FaissScan} {mode : LutMode}
  {query : QueryContext Float32} {block block' : CodeBlockView}

/-- The dot products of the padded rows need no other bytes. -/
theorem blockDots_take (hreads : faiss.ReadsPadded) (codes : Bytes)
    (hpadded : block.paddedSize % kUpdateBlockSize = 0) :
    (scanner.blockDots faiss mode query (block.trimmed scanner.layout)
        (codes.take (block.paddedSize * scanner.layout.codeSize))).map
          (fun dots => (List.range block.paddedSize).map dots) =
      (scanner.blockDots faiss mode query block codes).map
        (fun dots => (List.range block.paddedSize).map dots) := by
  rw [blockDots, blockDots]
  dsimp only
  cases chooseMode mode with
  | auto | quantizedUint8 =>
      dsimp only
      have hloop := fun values => hreads block.paddedSize scanner.layout.subquantizers
        (codes.take (block.paddedSize * scanner.layout.codeSize)) codes values
        (by rw [CodeLayout.codeSize, List.take_take, min_self])
      simp only [CodeBlockView.trimmed, hloop]
  | exactFloat | scalarFloat =>
      rw [show (block.trimmed scanner.layout).paddedSize = block.paddedSize from rfl]
      by_cases hbad : block.paddedSize = 0 ∨ query.dotLut = []
      · rw [if_pos hbad, if_pos hbad]
      · rw [if_neg hbad, if_neg hbad]
        refine congrArg Except.ok (List.map_congr_left fun row hrow => ?_)
        exact accumulateExactPq4Lut_congr (unpackRow_take codes hpadded (List.mem_range.mp hrow)) _

theorem scanRow_trimmed (metadata : Bytes) {dots dots' : Nat → Float32} {row : Nat}
    (hpadded : block.paddedSize % kUpdateBlockSize = 0) (hrow : row < block.paddedSize)
    (hdots : dots row = dots' row) :
    scanner.scanRow query (block.trimmed scanner.layout) (metadata.take (block.paddedSize * 3)) dots
      row = scanner.scanRow query block metadata dots' row := by
  rw [scanRow, scanRow, CodeBlockView.idAt_trimmed, load_take metadata hpadded hrow, hdots]

/-- The rows of a block need no bytes behind the padded ones. -/
theorem scanBlock_trimmed (hreads : faiss.ReadsPadded) (block : CodeBlockView) :
    scanner.scanBlock faiss mode query (block.trimmed scanner.layout) =
      scanner.scanBlock faiss mode query block := by
  have hsizes : (block.trimmed scanner.layout).size = block.size ∧
      (block.trimmed scanner.layout).paddedSize = block.paddedSize ∧
      (block.trimmed scanner.layout).blockSize = block.blockSize := ⟨rfl, rfl, rfl⟩
  rw [scanBlock, scanBlock, hsizes.1, hsizes.2.1, hsizes.2.2]
  rcases hcodes : block.packedCodes with _ | codes
  · simp only [CodeBlockView.trimmed, hcodes, Option.map_none]
  rcases hmetadata : block.packedMetadata with _ | metadata
  · simp only [CodeBlockView.trimmed, hcodes, hmetadata, Option.map_none, Option.map_some]
  rw [show (block.trimmed scanner.layout).packedCodes =
      some (codes.take (block.paddedSize * scanner.layout.codeSize)) by
        rw [CodeBlockView.trimmed, hcodes, Option.map_some],
    show (block.trimmed scanner.layout).packedMetadata = some (metadata.take (block.paddedSize * 3)) by
        rw [CodeBlockView.trimmed, hmetadata, Option.map_some]]
  dsimp only
  split
  next => rfl
  next hvalid =>
    simp only [not_or, Nat.not_lt, not_not] at hvalid
    obtain ⟨hsize, hblock, hpadded, -⟩ := hvalid
    rw [hblock] at hpadded
    have hdots := @blockDots_take scanner faiss mode query block hreads codes hpadded
    obtain ⟨error, htrimmed, hwhole⟩ | ⟨dots, dots', htrimmed, hwhole, hsame⟩ :=
      map_eq_map_iff.mp hdots
    · rw [htrimmed, hwhole, error_bind, error_bind]
    · rw [htrimmed, hwhole, ok_bind, ok_bind]
      refine congrArg Except.ok (List.map_congr_left fun tile _ => ?_)
      refine List.map_congr_left fun lane hlane => ?_
      have hrow : tile * kUpdateBlockSize + lane < block.paddedSize := by
        have := List.mem_range.mp hlane
        omega
      exact scanRow_trimmed metadata hpadded hrow
        (List.map_inj_left.mp hsame _ (List.mem_range.mpr hrow))

/-- Nor does the selection. -/
theorem scanIntervalCandidates_congr (hreads : faiss.ReadsPadded) {blocks blocks' : List CodeBlockView}
    (h : blocks'.map (CodeBlockView.trimmed scanner.layout) =
      blocks.map (CodeBlockView.trimmed scanner.layout)) (topk : Nat) (zScore : Float32)
    (maxCandidates : Nat) :
    scanner.scanIntervalCandidates faiss mode query blocks' topk zScore maxCandidates =
      scanner.scanIntervalCandidates faiss mode query blocks topk zScore maxCandidates := by
  have hcollect : ∀ accumulator (block : CodeBlockView),
      scanner.collectBlock faiss mode query zScore accumulator (block.trimmed scanner.layout) =
        scanner.collectBlock faiss mode query zScore accumulator block := fun accumulator block => by
    rw [collectBlock, collectBlock, scanBlock_trimmed hreads]
  have hfold : ∀ (blocks : List CodeBlockView) accumulator,
      (blocks.map (CodeBlockView.trimmed scanner.layout)).foldlM
          (scanner.collectBlock faiss mode query zScore) accumulator =
        blocks.foldlM (scanner.collectBlock faiss mode query zScore) accumulator := by
    intro blocks accumulator
    rw [List.foldlM_map]
    simp only [hcollect]
  rw [scanIntervalCandidates, scanIntervalCandidates]
  simp only [← hfold blocks', h, hfold]

end RecastFastScanner

/-! ### Lists -/

namespace MemoryList

variable {layout : CodeLayout} {list list' : MemoryList} {postings : List (Posting layout)}
  {blocks blocks' : Nat}

/-- Lists of the same postings differ in their spare capacity only. -/
theorem Holds.trimmed_eq (hholds : list.Holds layout postings blocks)
    (hholds' : list'.Holds layout postings blocks') : list'.trimmed layout = list.trimmed layout := by
  have hpadded : paddedTo postings.length ≤ roundUpBlock postings.length := Nat.mod_le _ _
  have htake : ∀ {width : Nat} {bytes bytes' : Bytes},
      bytes.take (roundUpBlock postings.length * width) =
        bytes'.take (roundUpBlock postings.length * width) →
      bytes.take (paddedTo postings.length * width) =
        bytes'.take (paddedTo postings.length * width) := by
    intro width bytes bytes' h
    have := congrArg (List.take (paddedTo postings.length * width)) h
    rwa [List.take_take, List.take_take, min_eq_left (Nat.mul_le_mul_right _ hpadded)] at this
  rw [MemoryList.trimmed, MemoryList.trimmed, hholds.size, hholds'.size, hholds.padded, hholds'.padded,
    htake (hholds'.codes_canonical.trans hholds.codes_canonical.symm),
    htake (hholds'.metadata_canonical.trans hholds.metadata_canonical.symm)]

/-- Rows have buffers. -/
theorem Holds.buffers (hholds : list.Holds layout postings blocks) (hrows : list.logicalSize ≠ 0) :
    list.packedCodes ≠ [] ∧ list.packedMetadata ≠ [] := by
  have hroom := hholds.lanes.room
  rw [hholds.size] at hrows
  have hblocks : 0 < blocks := by omega
  have hlayout := layout.subquantizers_eq
  have hpos := layout.subquantizers_pos
  have hbytes : 0 < blocks * layout.blockBytes := Nat.mul_pos hblocks (by
    rw [layout.blockBytes_eq]
    omega)
  rw [← hholds.codes_length] at hbytes
  have hmetadata := hholds.metadata_length
  exact ⟨List.ne_nil_of_length_pos hbytes, List.ne_nil_of_length_pos (by omega)⟩

end MemoryList

/-- A search cannot tell the indexes apart. -/
structure Index.Alike (layout : CodeLayout) (index index' : Index) : Prop where
  lists : ∀ l, (index'.lists l).trimmed layout = (index.lists l).trimmed layout
  buffers : ∀ l, (index.lists l).logicalSize ≠ 0 →
    (index.lists l).packedCodes ≠ [] ∧ (index.lists l).packedMetadata ≠ []
  buffers' : ∀ l, (index'.lists l).logicalSize ≠ 0 →
    (index'.lists l).packedCodes ≠ [] ∧ (index'.lists l).packedMetadata ≠ []
  active : index'.activeCount = index.activeCount

theorem Stored.alike {system system' : System} {rows : Rows config} {extra extra' : Nat → Nat}
    (hstored : Stored system rows extra) (hstored' : Stored system' rows extra') :
    Index.Alike config.codes system.index system'.index where
  lists := fun l => (hstored.postings l).choose_spec.trimmed_eq (hstored'.postings l).choose_spec
  buffers := fun l => (hstored.postings l).choose_spec.buffers
  buffers' := fun l => (hstored'.postings l).choose_spec.buffers
  active := hstored'.active.trans hstored.active.symm

namespace Index.Alike

variable {layout : CodeLayout} {index index' : Index} (h : Index.Alike layout index index')
include h

theorem size_eq (l : Nat) : (index'.lists l).logicalSize = (index.lists l).logicalSize :=
  (MemoryList.mk.inj (h.lists l)).2.2.1

theorem probedSpans_eq (selected : List UInt32) (tokenBase : Nat) :
    probedSpans index' selected tokenBase = probedSpans index selected tokenBase := by
  induction selected generalizing tokenBase with
  | nil => rfl
  | cons listNo rest ih => simp only [probedSpans, h.size_eq, ih]

/-- The blocks of a search agree up to the padded rows. -/
theorem probedBlocks_map (selected : List Nat) (tokenBase : Nat) :
    (probedBlocks index' selected tokenBase).map
        (Prod.map (List.map (CodeBlockView.trimmed layout)) id) =
      (probedBlocks index selected tokenBase).map
        (Prod.map (List.map (CodeBlockView.trimmed layout)) id) := by
  induction selected generalizing tokenBase with
  | nil => rfl
  | cons listNo rest ih =>
      rw [probedBlocks, probedBlocks]
      dsimp only
      rw [h.size_eq]
      split
      next => exact ih tokenBase
      next hrows =>
        split
        next => rfl
        next =>
          obtain ⟨error, hrest', hrest⟩ | ⟨found', found, hrest', hrest, hsame⟩ :=
            map_eq_map_iff.mp (ih (tokenBase + (index.lists listNo).logicalSize))
          · rw [hrest', hrest, error_bind, error_bind]
          · obtain ⟨hcodes, hmetadata⟩ := h.buffers listNo hrows
            obtain ⟨hcodes', hmetadata'⟩ := h.buffers' listNo (by rwa [h.size_eq])
            obtain ⟨hbytes, hplanes, -, hpadded⟩ := MemoryList.mk.inj (h.lists listNo)
            rw [hpadded] at hbytes hplanes
            obtain ⟨hblocks, htokens⟩ := Prod.mk.inj hsame
            rw [hrest', hrest, ok_bind, ok_bind]
            simp only [tablePointer, if_neg hcodes, if_neg hmetadata, if_neg hcodes',
              if_neg hmetadata', hpadded, pure_eq_ok]
            refine congrArg Except.ok (Prod.ext (congrArg₂ List.cons ?_ hblocks) htokens)
            rw [CodeBlockView.trimmed, CodeBlockView.trimmed]
            simp only [Option.map_some, hbytes, hplanes]

theorem searchBlocks_map (selected : List Nat) (topk : Nat) :
    (searchBlocks index' selected topk).map (List.map (CodeBlockView.trimmed layout)) =
      (searchBlocks index selected topk).map (List.map (CodeBlockView.trimmed layout)) := by
  rw [searchBlocks, searchBlocks, h.active]
  split
  next => rfl
  next =>
    obtain ⟨error, hprobed', hprobed⟩ | ⟨⟨blocks', tokens'⟩, ⟨blocks, tokens⟩, hprobed', hprobed,
      hsame⟩ := map_eq_map_iff.mp (h.probedBlocks_map selected 0)
    · rw [hprobed', hprobed, error_bind]
    · obtain ⟨hblocks, htokens⟩ := Prod.mk.inj hsame
      obtain rfl : tokens' = tokens := htokens
      rw [hprobed', hprobed, ok_bind, ok_bind]
      dsimp only
      split
      next => rfl
      next => exact congrArg Except.ok hblocks

end Index.Alike

namespace Searcher

variable {searcher : Searcher config} {faiss : Faiss Float32} {scan : FaissScan} {mode : LutMode}
  {query : List Float32} {topk nprobe maxCandidates : Nat} {zScore : Float32}
  {index index' : Index} {distanceFunction : ExactDistanceFunction}

theorem scanner_layout {scanner : RecastFastScanner} (h : searcher.scanner = .ok scanner) :
    scanner.layout = config.codes := by
  rw [Searcher.scanner] at h
  split at h
  next => rw [← Except.ok.inj h]
  next => cases h

theorem scanProbed_congr (h : Index.Alike config.codes index index') (hreads : scan.ReadsPadded)
    (selected : List UInt32) :
    searcher.scanProbed faiss scan mode index' selected query topk zScore maxCandidates =
      searcher.scanProbed faiss scan mode index selected query topk zScore maxCandidates := by
  rw [scanProbed, scanProbed]
  obtain ⟨error, hblocks', hblocks⟩ | ⟨blocks', blocks, hblocks', hblocks, hsame⟩ :=
    map_eq_map_iff.mp (h.searchBlocks_map (selected.map UInt32.toNat) topk)
  · rw [hblocks', hblocks, error_bind]
  · rw [hblocks', hblocks, ok_bind, ok_bind]
    cases hscanner : searcher.scanner with
    | error error => rfl
    | ok scanner =>
        rw [← scanner_layout hscanner] at hsame
        simp only [ok_bind, RecastFastScanner.scanIntervalCandidates_congr hreads hsame]

/-- The refinement of a search is planned alike on alike indexes. -/
theorem planSearch_congr (h : Index.Alike config.codes index index') (hreads : scan.ReadsPadded) :
    searcher.planSearch faiss scan mode index' query topk nprobe zScore maxCandidates
        distanceFunction =
      searcher.planSearch faiss scan mode index query topk nprobe zScore maxCandidates
        distanceFunction := by
  simp only [planSearch, selectCandidatesLocked, h.active, scanProbed_congr h hreads, h.probedSpans_eq]

end Searcher

/-! ### Records -/

namespace RefineCall

variable {call : RefineCall} {files files' : Nat → Bytes} {candidates : List ListCandidate}

/-- A refinement depends on what its plans read. -/
theorem refine_congr (h : ∀ plan ∈ call.plans, ∀ opened heap,
      call.refinePlan files' opened heap plan = call.refinePlan files opened heap plan) :
    call.refine files' = call.refine files := by
  have hblocking : ∀ (plans : List ReadPlan), plans ⊆ call.plans → ∀ opened heap,
      call.refineBlocking files' opened plans heap = call.refineBlocking files opened plans heap := by
    intro plans hplans opened heap
    induction plans generalizing heap with
    | nil => rfl
    | cons plan rest ih =>
        obtain ⟨hplan, hrest⟩ := List.cons_subset.mp hplans
        rw [refineBlocking, refineBlocking, List.foldlM_cons, List.foldlM_cons, h plan hplan]
        exact bind_congr fun heap => ih hrest heap
  have hwindows : ∀ rounds listBegin planBegin heap,
      call.refineWindows files' rounds listBegin planBegin heap =
        call.refineWindows files rounds listBegin planBegin heap := by
    intro rounds
    induction rounds with
    | zero => intro _ _ _; rfl
    | succ rounds ih =>
        intro listBegin planBegin heap
        rw [refineWindows, refineWindows]
        dsimp only
        rw [hblocking (slice call.plans planBegin (call.planEnd listBegin planBegin - planBegin))
          fun plan hplan => List.mem_of_mem_drop (List.mem_of_mem_take hplan)]
        simp only [ih]
  rw [refine, refine, hwindows]

/-- Files that hold the same records of the candidates are refined alike. -/
theorem Reads.refine_congr (hreads : call.Reads files candidates)
    (hreads' : call.Reads files' candidates)
    (hsame : ∀ candidate ∈ candidates,
      call.neighborAt files' candidate = call.neighborAt files candidate) :
    call.refine files' = call.refine files := by
  refine RefineCall.refine_congr fun plan hplan opened heap => ?_
  have hitems : ∀ item ∈ plan.candidates, call.itemNeighbor (readBytes files' plan) item =
      call.itemNeighbor (readBytes files plan) item := by
    intro item hitem
    obtain ⟨candidate, hcandidate, hneighbor⟩ := hreads.neighbors plan hplan item hitem
    obtain ⟨candidate', hcandidate', hneighbor'⟩ := hreads'.neighbors plan hplan item hitem
    obtain rfl := Option.some.inj (hcandidate.symm.trans hcandidate')
    rw [hneighbor, hneighbor', hsame _ (List.mem_of_getElem? hcandidate)]
  rw [refinePlan, refinePlan, descriptorFor]
  split
  next =>
    rw [ok_bind, ok_bind]
    dsimp only
    rw [← readBytes, ← readBytes, hreads.length plan hplan, hreads'.length plan hplan]
    rw [if_neg (not_not.mpr rfl), if_neg (not_not.mpr rfl), RefineCall.processPlan,
      RefineCall.processPlan]
    generalize plan.candidates = items at hitems
    induction items generalizing heap with
    | nil => rfl
    | cons item rest ih =>
        obtain ⟨hitem, hrest⟩ := List.forall_mem_cons.mp hitems
        obtain ⟨hid, hdistance⟩ := Neighbor.mk.inj hitem
        rw [List.foldlM_cons, List.foldlM_cons, processCandidate, processCandidate, hid, hdistance]
        exact bind_congr fun heap => ih heap hrest
  next => rfl

end RefineCall

section Stored

variable {system system' : System} {rows : Rows config}

/-- The record of an occupied slot. -/
theorem Stored.neighborOf_congr (hstored : Stored system rows fun _ => 0)
    (hstored' : Stored system' rows fun _ => 0) {candidate : ListCandidate}
    (hslot : candidate.offset < (rows candidate.listNo).length) (distance : Bytes → Float32) :
    config.records.neighborOf distance system'.storage.files candidate =
      config.records.neighborOf distance system.storage.files candidate := by
  have hlt : candidate.offset < ((rows candidate.listNo).map Row.record).length := by
    rwa [List.length_map]
  have hrecord := ((hstored'.records candidate.listNo).slot _ hlt).trans
    ((hstored.records candidate.listNo).slot _ hlt).symm
  rw [RecordLayout.neighborOf, RecordLayout.neighborOf, Storage.files, Storage.files, hrecord]

variable {candidates : List ListCandidate} {call : RefineCall} {options : ListFileRefineOptions}
  {query : List Float32} {dimension topk : Nat} {distanceFunction : ExactDistanceFunction}

/-- A refinement of occupied slots depends on the rows only. -/
theorem Stored.refine_congr (hstored : Stored system rows fun _ => 0)
    (hstored' : Stored system' rows fun _ => 0)
    (hplanned : planRefine config.records config.nlist options query dimension candidates topk
      distanceFunction = .ok call)
    (hslots : ∀ candidate ∈ candidates, candidate.offset < (rows candidate.listNo).length) :
    call.refine system'.storage.files = call.refine system.storage.files := by
  have hreads := RefineCall.planRefine_reads hplanned (hstored.readable fun candidate hcandidate => by
    rw [hstored.size_eq]
    exact hslots candidate hcandidate)
  have hreads' := RefineCall.planRefine_reads hplanned (hstored'.readable fun candidate hcandidate => by
    rw [hstored'.size_eq]
    exact hslots candidate hcandidate)
  refine hreads.refine_congr hreads' fun candidate hcandidate => ?_
  have hlayout : call.layout = config.records := by rw [(planRefine_eq_ok hplanned).2]
  rw [RefineCall.neighborAt, RefineCall.neighborAt, hlayout]
  exact hstored.neighborOf_congr hstored' (hslots candidate hcandidate) call.distance

end Stored

/-! ### Searches -/

theorem mem_probedSpans {index : Index} {selected : List UInt32} {tokenBase : Nat} {span : TokenSpan}
    (h : span ∈ probedSpans index selected tokenBase) :
    span.tokenEnd = span.tokenBegin + (index.lists span.listNo.toNat).logicalSize := by
  induction selected generalizing tokenBase with
  | nil => cases h
  | cons listNo rest ih =>
      rw [probedSpans] at h
      split at h
      next => exact ih h
      next =>
        rcases List.mem_cons.mp h with rfl | hrest
        · rfl
        · exact ih hrest

/-- A token leads to an occupied slot or nowhere. -/
theorem locate_occupied {index : Index} {selected : List UInt32} {tokenBase : Nat}
    {row : DistanceEstimate Float32} {candidate : ListCandidate}
    (h : locate (probedSpans index selected tokenBase) row = .ok candidate) :
    candidate.offset < (index.lists candidate.listNo).logicalSize := by
  unfold locate at h
  split at h
  next => cases h
  next span hspan =>
    obtain ⟨hbegin, h⟩ := guard_eq_ok.mp h
    have hend := mem_probedSpans (List.mem_of_find?_eq_some hspan)
    have hlt : row.id < span.tokenEnd := by simpa using List.find?_some hspan
    rw [← Except.ok.inj h]
    change (row.id - span.tokenBegin) % 2 ^ 32 < (index.lists span.listNo.toNat).logicalSize
    have := Nat.mod_le (row.id - span.tokenBegin) (2 ^ 32)
    omega

namespace Searcher

variable {searcher : Searcher config} {faiss : Faiss Float32} {scan : FaissScan} {mode : LutMode}
  {query : List Float32} {topk nprobe maxCandidates : Nat} {zScore : Float32} {index : Index}
  {distanceFunction : ExactDistanceFunction}

theorem planSearch_eq_ok {call : RefineCall}
    (h : searcher.planSearch faiss scan mode index query topk nprobe zScore maxCandidates
      distanceFunction = .ok call) :
    ∃ candidates, planRefine config.records config.nlist searcher.options query
        searcher.quantizer.config.dimension candidates topk distanceFunction = .ok call ∧
      ∀ candidate ∈ candidates, candidate.offset < (index.lists candidate.listNo).logicalSize := by
  rw [planSearch] at h
  obtain ⟨selection, hselection, h⟩ := bind_eq_ok.mp h
  refine ⟨selection.candidates, h, ?_⟩
  rw [selectCandidatesLocked, guard_eq_ok] at hselection
  obtain ⟨selected, -, hselection⟩ := bind_eq_ok.mp hselection.2
  obtain ⟨found, -, hselection⟩ := bind_eq_ok.mp hselection
  obtain ⟨candidates, hcandidates, hselection⟩ := bind_eq_ok.mp (guard_eq_ok.mp hselection).2
  rw [← Except.ok.inj hselection]
  intro candidate hcandidate
  obtain ⟨row, -, hrow⟩ := (mapM_ok_entries hcandidates (k := fun _ => ()) (g := fun _ => ())
    fun _ _ _ _ => rfl).2 candidate hcandidate
  exact locate_occupied hrow

/-- A search depends on the rows of the index and not on how it came to hold them: two indexes
with the same rows in the same slots return the same result or throw the same exception. -/
theorem search_congr {system system' : System} {rows : Rows config}
    (hstored : Stored system rows fun _ => 0) (hstored' : Stored system' rows fun _ => 0)
    (hreads : scan.ReadsPadded) :
    searcher.search faiss scan mode system' query topk nprobe zScore maxCandidates distanceFunction =
      searcher.search faiss scan mode system query topk nprobe zScore maxCandidates
        distanceFunction := by
  rw [search, search, planSearch_congr (hstored.alike hstored') hreads]
  cases hplanned : searcher.planSearch faiss scan mode system.index query topk nprobe zScore
      maxCandidates distanceFunction with
  | error error => rfl
  | ok call =>
      obtain ⟨candidates, hrefine, hslots⟩ := planSearch_eq_ok hplanned
      simp only [hstored.size_eq] at hslots
      have hrows : ∀ candidate ∈ candidates, rows candidate.listNo ≠ [] := fun candidate hcandidate =>
        List.ne_nil_of_length_pos (Nat.zero_lt_of_lt (hslots candidate hcandidate))
      rw [ok_bind, ok_bind, hstored.opens hrefine hrows, hstored'.opens hrefine hrows, ok_bind, ok_bind]
      exact hstored.refine_congr hstored' hrefine hslots

end Searcher

end Recast
