import Recast.Search.Exact

/-!
# What a search returns

A search that gets past the selection lists active rows of the probed lists by
their exact distances. With sound intervals and no effective cap the selection
always leaves the nearest rows, so that the search lists those of all probed rows.
-/

namespace Recast

open Foundation

variable {config : IndexConfig} {system : System} {ledger : Ledger config}

namespace Searcher

variable {searcher : Searcher config} {faiss : Faiss Float32} {scan : FaissScan} {mode : LutMode}
  {query : List Float32} {topk nprobe maxCandidates : Nat} {zScore : Float32}
  {selected : List UInt32} {index : Index} {found : SelectionResult Float32}
  {scanned : List (DistanceEstimate Float32)}

/-- The rows `scan_all` returns for the probed lists. -/
def scannedRows (searcher : Searcher config) (faiss : Faiss Float32) (scan : FaissScan)
    (mode : LutMode) (index : Index) (selected : List UInt32) (query : List Float32) (topk : Nat) :
    Except Error (List (DistanceEstimate Float32)) := do
  let blocks ← searchBlocks index (selected.map UInt32.toNat) topk
  let scanner ← searcher.scanner
  let context ← (searcher.quantizer.prepareQuery machineNumerics faiss query).mapError
    ModelError.toError
  let outputs ← blocks.mapM (scanner.scanAll scan mode context)
  return outputs.flatten

/-- A search scans its probed lists for their selection. -/
theorem scanProbed_same (h : SelectionParameters topk zScore maxCandidates) :
    SameSelection
      (searcher.scanProbed faiss scan mode index selected query topk zScore maxCandidates)
      (searcher.scannedRows faiss scan mode index selected query topk >>=
        intervalSelection topk zScore maxCandidates) := by
  rw [scanProbed, scannedRows]
  cases hblocks : searchBlocks index (selected.map UInt32.toNat) topk with
  | error error => rfl
  | ok blocks =>
      simp only [ok_bind]
      cases searcher.scanner with
      | error error => rfl
      | ok scanner =>
          simp only [ok_bind]
          cases (searcher.quantizer.prepareQuery machineNumerics faiss query).mapError
              ModelError.toError with
          | error error => rfl
          | ok context =>
              simp only [ok_bind, bind_assoc, pure_bind]
              refine RecastFastScanner.scanIntervalCandidates_same h ?_
              rw [(searchBlocks_spec hblocks).2.2.2]
              exact List.nodup_range

/-- The scanned rows are numbered by their tokens. -/
theorem scannedRows_spec
    (h : searcher.scannedRows faiss scan mode index selected query topk = .ok scanned) :
    scanned.map DistanceEstimate.id = List.range (probedSlots index selected).length ∧
      ScannedRows scanned ∧ 0 < topk ∧ topk ≤ scanned.length ∧ topk ≤ index.activeCount ∧
      scanned.length ≤ uint32Max := by
  rw [scannedRows] at h
  obtain ⟨blocks, hblocks, h⟩ := bind_eq_ok.mp h
  obtain ⟨scanner, -, h⟩ := bind_eq_ok.mp h
  obtain ⟨context, -, h⟩ := bind_eq_ok.mp h
  obtain ⟨outputs, houtputs, h⟩ := bind_eq_ok.mp h
  rw [pure_eq_ok, Except.ok.injEq] at h
  obtain ⟨htopk, hcount, hmax, hids⟩ := searchBlocks_spec hblocks
  obtain ⟨hscanned, hrows⟩ := RecastFastScanner.mapM_scanAll houtputs
  rw [h, hids] at hscanned
  rw [h] at hrows
  have hlength := congrArg List.length hscanned
  rw [List.length_map, List.length_range] at hlength
  rw [searchBlocks, guard_eq_ok] at hblocks
  exact ⟨hscanned, hrows, htopk, by omega, by omega, by omega⟩

theorem activeCount_of_scanned
    (h : searcher.scannedRows faiss scan mode index selected query topk = .ok scanned) :
    ¬(topk = 0 ∨ index.activeCount < topk) := by
  obtain ⟨-, -, htopk, -, hactive, -⟩ := scannedRows_spec h
  omega

/-- The slot of every scanned row is found again. -/
theorem locate_scanned
    (h : searcher.scannedRows faiss scan mode index selected query topk = .ok scanned)
    {row : DistanceEstimate Float32} (hrow : row ∈ scanned) :
    ∃ slot located, (probedSlots index selected)[row.id]? = some slot ∧
      locate (probedSpans index selected 0) row = .ok located ∧
      (located.listNo, located.offset) = slot := by
  obtain ⟨hids, -, -, -, -, hmax⟩ := scannedRows_spec h
  have hlength := congrArg List.length hids
  rw [List.length_map, List.length_range] at hlength
  have hid := List.mem_map_of_mem (f := DistanceEstimate.id) hrow
  rw [hids, List.mem_range] at hid
  obtain ⟨located, hlocated, hslot⟩ := locate_probedSpans
    (List.getElem?_eq_getElem hid) (by omega) (show row.id = 0 + row.id from (Nat.zero_add _).symm)
  exact ⟨_, located, List.getElem?_eq_getElem hid, hlocated, hslot⟩

/-! ### Pruning -/

/-- The upper endpoint the selection compares with is a number, and `topk` rows
have endpoints up to it. -/
theorem le_countP_kthUpper (hrows : ScannedRows scanned) (hpos : 0 < topk)
    (henough : topk ≤ scanned.length) (zScore : Float32) :
    ∃ kthUpper, (sortBy Ieee.lt (scanned.map fun row => row.upper zScore)).getD (topk - 1)
        Ieee.infinity = kthUpper ∧ kthUpper.isNaN = false ∧
      topk ≤ scanned.countP fun row => Ieee.le (row.upper zScore) kthUpper := by
  have huppers : ∀ upper ∈ scanned.map (fun row => row.upper zScore), upper.isNaN = false := by
    rw [List.forall_mem_map]
    exact fun row hrow => row.upper_valid float32_numbers (hrows row hrow).1 zScore
  have hperm := sortBy_perm Ieee.lt (scanned.map fun row => row.upper zScore)
  have hplace : topk - 1 <
      (sortBy Ieee.lt (scanned.map fun row => row.upper zScore)).length := by
    rw [hperm.length_eq, List.length_map]
    omega
  have hget := List.getElem?_eq_getElem hplace
  have hvalid := huppers _ (hperm.subset (List.getElem_mem hplace))
  have hrank := (sorted_rank (sortBy_sorted (lt_comparesBy float32_numbers.toOrderedBy) huppers)
    hget).2
  refine ⟨_, by rw [List.getD_eq_getElem?_getD, hget, Option.getD_some], hvalid, ?_⟩
  rw [hperm.countP_eq, List.countP_map] at hrank
  refine (Nat.le_of_pred_lt hrank).trans_eq (List.countP_congr fun row hrow => ?_)
  have hupper := row.upper_valid float32_numbers (hrows row hrow).1 zScore
  exact decide_eq_true_iff.trans (float32_numbers.le_iff hupper hvalid).symm

/-- The exact distance of every row lies in its interval. -/
def Sound (zScore : Float32) (near : DistanceEstimate Float32 → Neighbor)
    (scanned : List (DistanceEstimate Float32)) : Prop :=
  ∀ row ∈ scanned, Ieee.le (row.lower zScore) (near row).distance = true ∧
    Ieee.le (near row).distance (row.upper zScore) = true

section Pruning

variable {near : DistanceEstimate Float32 → Neighbor}

/-- A row that the interval filter drops has `topk` rows strictly nearer. -/
theorem Sound.nearer (hsound : Sound zScore near scanned) (hrows : ScannedRows scanned)
    (hvalid : ∀ row ∈ scanned, (near row).Valid) {kthUpper : Float32}
    (hkth : kthUpper.isNaN = false)
    (hcount : topk ≤ scanned.countP fun row => Ieee.le (row.upper zScore) kthUpper)
    {row : DistanceEstimate Float32} (hrow : row ∈ scanned)
    (hdrop : Ieee.le (row.lower zScore) kthUpper = false) :
    topk ≤ scanned.countP fun other => (near other).key < (near row).key := by
  have hnumber : ∀ row ∈ scanned, (near row).distance.isNaN = false :=
    fun row hrow => RecastFastScanner.not_isNaN_of_isFinite (hvalid row hrow).1
  have hlower := row.lower_valid float32_numbers (hrows row hrow).1 zScore
  have habove : float32Key kthUpper < float32Key (near row).distance := by
    have hle := (float32_numbers.le_iff hlower (hnumber row hrow)).mp (hsound row hrow).1
    refine lt_of_lt_of_le (not_le.mp fun hbelow => ?_) hle
    rw [(float32_numbers.le_iff hlower hkth).mpr hbelow] at hdrop
    cases hdrop
  refine hcount.trans (List.countP_mono_left fun other hother hupper => decide_eq_true ?_)
  have hvalidUpper := other.upper_valid float32_numbers (hrows other hother).1 zScore
  have hnear := (float32_numbers.le_iff (hnumber other hother) hvalidUpper).mp
    (hsound other hother).2
  have hup := (float32_numbers.le_iff hvalidUpper hkth).mp hupper
  refine Neighbor.key_lt (hvalid other hother) (hvalid row hrow) (of_decide_eq_true ?_)
  exact (float32_numbers.lt_iff (hnumber other hother) (hnumber row hrow)).mpr
    ((hnear.trans hup).trans_lt habove)

/-- Rows with `topk` endpoints up to a bound have `topk` rows that pass the filter. -/
theorem Sound.passes (hsound : Sound zScore near scanned) (hrows : ScannedRows scanned)
    (hvalid : ∀ row ∈ scanned, (near row).Valid) {kthUpper : Float32}
    (hkth : kthUpper.isNaN = false) {row : DistanceEstimate Float32} (hrow : row ∈ scanned)
    (hupper : Ieee.le (row.upper zScore) kthUpper = true) :
    Ieee.le (row.lower zScore) kthUpper = true := by
  have hnumber := RecastFastScanner.not_isNaN_of_isFinite (hvalid row hrow).1
  have hlower := row.lower_valid float32_numbers (hrows row hrow).1 zScore
  have hvalidUpper := row.upper_valid float32_numbers (hrows row hrow).1 zScore
  rw [float32_numbers.le_iff hlower hkth]
  exact ((float32_numbers.le_iff hlower hnumber).mp (hsound row hrow).1).trans
    (((float32_numbers.le_iff hnumber hvalidUpper).mp (hsound row hrow).2).trans
      ((float32_numbers.le_iff hvalidUpper hkth).mp hupper))

variable {selection : SelectionResult Float32}

/-- No row of the `topk` nearest is dropped by the filter: it is a candidate as soon
as it is among the best estimates. -/
theorem Sound.keeps (hsound : Sound zScore near scanned) (hrows : ScannedRows scanned)
    (hvalid : ∀ row ∈ scanned, (near row).Valid) (hpos : 0 < topk)
    (hselection : intervalSelection topk zScore maxCandidates scanned = .ok selection)
    {row : DistanceEstimate Float32} (hrow : row ∈ scanned)
    (hnearest : scanned.countP (fun other => (near other).key < (near row).key) < topk)
    (hbest : maxCandidates = 0 ∨
      row ∈ (sortBy FusedIntervalAccumulator.rankLess scanned).take maxCandidates) :
    row ∈ selection.candidates := by
  rw [intervalSelection, guard_eq_ok] at hselection
  obtain ⟨henough, hselection⟩ := hselection
  obtain ⟨kthUpper, hkth, hnumber, hcount⟩ := le_countP_kthUpper hrows hpos
    (Nat.not_lt.mp henough) zScore
  rw [hkth] at hselection
  rw [← Except.ok.inj hselection]
  refine List.mem_filter.mpr ⟨?_, ?_⟩
  · split
    next => exact (sortBy_perm _ _).symm.subset hrow
    next hcap => exact hbest.resolve_left hcap
  · by_contra hdrop
    rw [Bool.not_eq_true] at hdrop
    exact absurd (hsound.nearer hrows hvalid hnumber hcount hrow hdrop) (Nat.not_le.mpr hnearest)

/-- Without an effective cap the candidates are a shortlist of all rows for the
`topk` nearest. -/
theorem Sound.shortlist (hsound : Sound zScore near scanned) (hrows : ScannedRows scanned)
    (hvalid : ∀ row ∈ scanned, (near row).Valid) (hpos : 0 < topk)
    (henough : topk ≤ scanned.length) (hwide : maxCandidates = 0 ∨ scanned.length ≤ maxCandidates) :
    ∃ selection, intervalSelection topk zScore maxCandidates scanned = .ok selection ∧
      topk ≤ selection.candidates.length ∧
      Shortlist (fun row => (near row).key) topk scanned selection.candidates := by
  obtain ⟨kthUpper, hkth, hnumber, hcount⟩ := le_countP_kthUpper hrows hpos henough zScore
  have hperm := sortBy_perm FusedIntervalAccumulator.rankLess scanned
  have hall : (if maxCandidates = 0 then sortBy FusedIntervalAccumulator.rankLess scanned
      else (sortBy FusedIntervalAccumulator.rankLess scanned).take maxCandidates) =
        sortBy FusedIntervalAccumulator.rankLess scanned := by
    split
    next => rfl
    next hcap => exact List.take_of_length_le (hperm.length_eq.trans_le (hwide.resolve_left hcap))
  refine ⟨⟨(sortBy FusedIntervalAccumulator.rankLess scanned).filter fun row =>
    Ieee.le (row.lower zScore) kthUpper, kthUpper, 0 < maxCandidates &&
      maxCandidates < scanned.length⟩, ?_, ?_, ?_⟩
  · rw [intervalSelection, if_neg (Nat.not_lt.mpr henough), hkth]
    dsimp only
    rw [hall]
  · rw [← List.countP_eq_length_filter, hperm.countP_eq]
    exact hcount.trans (List.countP_mono_left fun row hrow hupper =>
      hsound.passes hrows hvalid hnumber hrow hupper)
  · have hfilter : Shortlist (fun row => (near row).key) topk
        (sortBy FusedIntervalAccumulator.rankLess scanned)
        ((sortBy FusedIntervalAccumulator.rankLess scanned).filter fun row =>
          Ieee.le (row.lower zScore) kthUpper) :=
      shortlist_filter fun row hrow hdrop => by
        rw [hperm.countP_eq]
        exact hsound.nearer hrows hvalid hnumber hcount (hperm.subset hrow) hdrop
    obtain ⟨dropped, hkept, hbelow⟩ := hfilter
    exact ⟨dropped, hkept.trans hperm, hbelow⟩

end Pruning

/-! ### From the selection to the records -/

/-- What a selection picks are scanned rows. -/
theorem mem_of_intervalSelection {selection : SelectionResult Float32}
    (h : intervalSelection topk zScore maxCandidates scanned = .ok selection)
    {row : DistanceEstimate Float32} (hrow : row ∈ selection.candidates) : row ∈ scanned := by
  rw [intervalSelection, guard_eq_ok] at h
  rw [← Except.ok.inj h.2] at hrow
  have hranked := List.mem_of_mem_filter hrow
  have hsorted := sortBy_perm FusedIntervalAccumulator.rankLess scanned
  split at hranked
  · exact hsorted.subset hranked
  · exact hsorted.subset (List.mem_of_mem_take hranked)

/-- A scan that returns has the candidates of the selection. -/
theorem found_candidates (hparameters : SelectionParameters topk zScore maxCandidates)
    (h : searcher.scanProbed faiss scan mode index selected query topk zScore maxCandidates =
      .ok found) :
    ∃ scanned selection, searcher.scannedRows faiss scan mode index selected query topk =
        .ok scanned ∧
      intervalSelection topk zScore maxCandidates scanned = .ok selection ∧
      found.candidates = selection.candidates := by
  have hsame := @scanProbed_same config searcher faiss scan mode query topk maxCandidates zScore
    selected index hparameters
  rw [h] at hsame
  cases hscanned : searcher.scannedRows faiss scan mode index selected query topk with
  | error error =>
      rw [hscanned, error_bind] at hsame
      exact hsame.elim
  | ok scanned =>
      rw [hscanned, ok_bind] at hsame
      cases hselection : intervalSelection topk zScore maxCandidates scanned with
      | error error =>
          rw [hselection] at hsame
          exact hsame.elim
      | ok selection =>
          rw [hselection] at hsame
          exact ⟨scanned, selection, rfl, hselection, hsame.1⟩

theorem selectCandidatesLocked_eq_ok {located : LocatedSelection}
    (hroute : searcher.router.routePq config.nlist query nprobe = .ok selected)
    (h : searcher.selectCandidatesLocked faiss scan mode index query topk nprobe zScore
      maxCandidates = .ok located) :
    ∃ found, searcher.scanProbed faiss scan mode index selected query topk zScore maxCandidates =
        .ok found ∧
      topk ≤ found.candidates.length ∧
      found.candidates.mapM (locate (probedSpans index selected 0)) = .ok located.candidates := by
  rw [selectCandidatesLocked, guard_eq_ok, hroute, ok_bind] at h
  obtain ⟨found, hfound, h⟩ := bind_eq_ok.mp h.2
  rw [guard_eq_ok] at h
  obtain ⟨hcount, h⟩ := h
  obtain ⟨candidates, hcandidates, h⟩ := bind_eq_ok.mp h
  rw [← Except.ok.inj h]
  exact ⟨found, hfound, Nat.not_lt.mp hcount, hcandidates⟩

section Runs

variable {rows : Rows config} {ids : List Nat} {distanceFunction : ExactDistanceFunction}

/-- The exact distance of a search as a function of the payload. -/
abbrev distance (searcher : Searcher config) (distanceFunction : ExactDistanceFunction)
    (query : List Float32) : Bytes → Float32 :=
  fun payload => distanceFunction query payload searcher.quantizer.config.dimension

/-- The exact result for the row behind a token. -/
def tokenNeighbor (ledger : Ledger config) (distance : Bytes → Float32) (ids : List Nat)
    (row : DistanceEstimate Float32) : Neighbor :=
  ledger.neighbor distance (ids.getD row.id 0)

/-- Scanned rows, token by token, are the probed rows. -/
theorem map_tokenNeighbor (hprobed : Probed system ledger selected ids)
    (hscanned : searcher.scannedRows faiss scan mode system.index selected query topk = .ok scanned)
    (distance : Bytes → Float32) :
    scanned.map (tokenNeighbor ledger distance ids) = ids.map (ledger.neighbor distance) := by
  have hids := (scannedRows_spec hscanned).1
  rw [hprobed.length_eq] at hids
  have hmap : scanned.map (tokenNeighbor ledger distance ids) =
      (scanned.map DistanceEstimate.id).map fun token =>
        ledger.neighbor distance (ids.getD token 0) := by
    rw [List.map_map]
    rfl
  rw [hmap, hids]
  refine List.ext_getElem (by simp) fun token _ htoken => ?_
  rw [List.length_map] at htoken
  simp [htoken]

/-- The located candidates name occupied slots, and the refiner computes their
exact results. -/
theorem located_neighbors (hprobed : Probed system ledger selected ids)
    (hscanned : searcher.scannedRows faiss scan mode system.index selected query topk = .ok scanned)
    {picked : List (DistanceEstimate Float32)} (hpicked : ∀ row ∈ picked, row ∈ scanned)
    {candidates : List ListCandidate}
    (hcandidates : picked.mapM (locate (probedSpans system.index selected 0)) = .ok candidates)
    (distance : Bytes → Float32) :
    candidates.map (config.records.neighborOf distance system.storage.files) =
        picked.map (tokenNeighbor ledger distance ids) ∧
      ∀ candidate ∈ candidates,
        candidate.offset < (system.index.lists candidate.listNo).logicalSize := by
  have hslot : ∀ row ∈ picked, ∀ candidate,
      locate (probedSpans system.index selected 0) row = .ok candidate →
      ∃ id entry, ids[row.id]? = some id ∧ ledger.contents id = some entry ∧
        SlotHolds system candidate.listNo candidate.offset id entry := by
    intro row hrow candidate hcandidate
    obtain ⟨slot, located, hslot, hlocated, hsame⟩ := locate_scanned hscanned (hpicked row hrow)
    obtain rfl := Except.ok.inj (hlocated.symm.trans hcandidate)
    obtain ⟨id, hid, entry, hentry, hholds⟩ := hprobed.get hslot
    rw [← hsame] at hholds
    exact ⟨id, entry, hid, hentry, hholds⟩
  obtain ⟨hmap, hmem⟩ := mapM_ok_entries hcandidates
    (k := config.records.neighborOf distance system.storage.files)
    (g := tokenNeighbor ledger distance ids) (fun row hrow candidate hcandidate => by
      obtain ⟨id, entry, hid, hentry, hholds⟩ := hslot row hrow candidate hcandidate
      rw [hholds.neighborOf_eq hentry, tokenNeighbor, List.getD_eq_getElem?_getD, hid,
        Option.getD_some])
  refine ⟨hmap, fun candidate hcandidate => ?_⟩
  obtain ⟨row, hrow, hcandidate⟩ := hmem candidate hcandidate
  obtain ⟨id, entry, -, -, hholds⟩ := hslot row hrow candidate hcandidate
  exact hholds.offset_lt

/-- A search that gets past its selection lists the smallest exact results of the
candidates. -/
theorem search_of_selected (hagrees : Agrees system rows ledger)
    (hroute : searcher.router.routePq config.nlist query nprobe = .ok selected)
    (hprobed : Probed system ledger selected ids)
    (hvalid : ∀ id ∈ ids, (ledger.neighbor (searcher.distance distanceFunction query) id).Valid)
    (hscanned : searcher.scannedRows faiss scan mode system.index selected query topk = .ok scanned)
    (hfound : searcher.scanProbed faiss scan mode system.index selected query topk zScore
      maxCandidates = .ok found)
    (hpicked : ∀ row ∈ found.candidates, row ∈ scanned)
    (hcount : topk ≤ found.candidates.length) :
    ∃ listed, searcher.search faiss scan mode system query topk nprobe zScore maxCandidates
        distanceFunction = .ok listed ∧
      TopPairs topk (found.candidates.map (tokenNeighbor ledger (searcher.distance distanceFunction query) ids)) listed := by
  obtain ⟨-, -, htopk, -, -, -⟩ := scannedRows_spec hscanned
  obtain ⟨candidates, hcandidates⟩ : ∃ candidates,
      found.candidates.mapM (locate (probedSpans system.index selected 0)) = .ok candidates :=
    exists_mapM_ok fun row hrow => by
      obtain ⟨-, located, -, hlocated, -⟩ := locate_scanned hscanned (hpicked row hrow)
      exact ⟨located, hlocated⟩
  obtain ⟨hneighbors, hslots⟩ := located_neighbors hprobed hscanned hpicked hcandidates
    (searcher.distance distanceFunction query)
  have hlength := length_mapM_ok hcandidates
  have hdistances : ∀ candidate ∈ candidates, (config.records.neighborOf
      (searcher.distance distanceFunction query) system.storage.files candidate).Valid := by
    intro candidate hcandidate
    have hmem := List.mem_map_of_mem (f := config.records.neighborOf
      (searcher.distance distanceFunction query) system.storage.files) hcandidate
    rw [hneighbors] at hmem
    obtain ⟨row, hrow, hneighbor⟩ := List.mem_map.mp hmem
    have hall := List.mem_map_of_mem (f := tokenNeighbor ledger
      (searcher.distance distanceFunction query) ids) (hpicked row hrow)
    rw [map_tokenNeighbor hprobed hscanned] at hall
    obtain ⟨id, hid, hsame⟩ := List.mem_map.mp hall
    rw [← hneighbor, ← hsame]
    exact hvalid id hid
  obtain ⟨call, listed, hcall, hfiles, hrefine, htop⟩ := hagrees.stored.refines searcher.options
    query searcher.dimension_pos htopk (hlength.symm ▸ hcount) hslots hdistances
  refine ⟨listed, ?_, hneighbors ▸ htop⟩
  rw [search, planSearch, selectCandidatesLocked, if_neg (activeCount_of_scanned hscanned), hroute,
    ok_bind, hfound, ok_bind, if_neg (Nat.not_lt.mpr hcount)]
  dsimp only
  rw [hcandidates, ok_bind, ok_bind, hcall, ok_bind, hfiles, ok_bind, hrefine]

/-- In every state that calls which returned lead to, a search whose selection returns
lists exactly `topk` rows, each once and in increasing order of distance and ID.
Each of them is an active row of a probed list with the distance of the payload
it was inserted with. -/
theorem search_lists_active_rows {Vector : Type*} (encoder : Encoder config Vector)
    (distanceFunction : ExactDistanceFunction)
    (hreachable : Reachable encoder (Succeeds encoder) system ledger)
    (hparameters : SelectionParameters topk zScore maxCandidates)
    (hroute : searcher.router.routePq config.nlist query nprobe = .ok selected)
    (hdistinct : selected.Nodup)
    (hvalid : ∀ payload, (distanceFunction query payload
        searcher.quantizer.config.dimension).isFinite = true ∧
      ¬distanceFunction query payload searcher.quantizer.config.dimension < 0)
    {located : LocatedSelection}
    (hselected : searcher.selectCandidatesLocked faiss scan mode system.index query topk nprobe
      zScore maxCandidates = .ok located) :
    ∃ listed, searcher.search faiss scan mode system query topk nprobe zScore maxCandidates
        distanceFunction = .ok listed ∧
      listed.length = topk ∧ (listed.map Neighbor.id).Nodup ∧
      listed.Pairwise (fun x y => exactPairWorseFirst x y = true) ∧
      ∀ neighbor ∈ listed, neighbor.id ∈ ledger.issued ∧ neighbor.id ∉ ledger.erased ∧
        ∃ l o entry, (∃ listNo ∈ selected, listNo.toNat = l) ∧
          SlotHolds system l o neighbor.id entry ∧
          ledger.contents neighbor.id = some entry ∧
          neighbor.distance = distanceFunction query entry.payload.bytes
            searcher.quantizer.config.dimension := by
  obtain ⟨rows, hagrees, -⟩ := hreachable.agrees (fun _ => True)
    fun _ _ _ hrule => ⟨Or.inl hrule, fun _ _ => trivial⟩
  obtain ⟨ids, hprobed⟩ := hagrees.exists_probed selected
  obtain ⟨found, hfound, hcount, -⟩ := selectCandidatesLocked_eq_ok hroute hselected
  obtain ⟨scanned, selection, hscanned, hselection, hsame⟩ := found_candidates hparameters hfound
  have hpicked : ∀ row ∈ found.candidates, row ∈ scanned := by
    rw [hsame]
    exact fun row hrow => mem_of_intervalSelection hselection hrow
  let distance := searcher.distance distanceFunction query
  have hneighbor : ∀ id ∈ ids, ∃ l o entry, (∃ listNo ∈ selected, listNo.toNat = l) ∧
      SlotHolds system l o id entry ∧ ledger.contents id = some entry ∧
      ledger.neighbor distance id = ⟨id, distance entry.payload.bytes⟩ := by
    intro id hid
    obtain ⟨slot, hslot, entry, hentry, hholds⟩ := hprobed.mem hid
    exact ⟨slot.1, slot.2, entry, (mem_probedSlots.mp hslot).1, hholds, hentry,
      by rw [Ledger.neighbor, hentry]; rfl⟩
  have hall : ∀ id ∈ ids, (ledger.neighbor distance id).Valid := by
    intro id hid
    obtain ⟨-, -, entry, -, -, -, hsame⟩ := hneighbor id hid
    rw [hsame]
    exact hvalid _
  obtain ⟨listed, hsearch, htop⟩ := search_of_selected hagrees hroute hprobed hall hscanned hfound
    hpicked hcount
  -- the candidates are probed rows, each under one token
  have hfrom : ∀ neighbor ∈ found.candidates.map (tokenNeighbor ledger distance ids), ∃ id ∈ ids,
      neighbor = ledger.neighbor distance id := by
    intro neighbor hmem
    obtain ⟨row, hrow, rfl⟩ := List.mem_map.mp hmem
    have hmem := List.mem_map_of_mem (f := tokenNeighbor ledger distance ids) (hpicked row hrow)
    rw [map_tokenNeighbor hprobed hscanned] at hmem
    obtain ⟨id, hid, hsame⟩ := List.mem_map.mp hmem
    exact ⟨id, hid, hsame.symm⟩
  have hids : ((found.candidates.map (tokenNeighbor ledger distance ids)).map Neighbor.id).Nodup := by
    have hscannedIds : (scanned.map (tokenNeighbor ledger distance ids)).map Neighbor.id = ids := by
      rw [map_tokenNeighbor hprobed hscanned, List.map_map]
      exact List.map_id ids
    have hnodup := hprobed.nodup hdistinct
    rw [← hscannedIds] at hnodup
    rw [intervalSelection, guard_eq_ok] at hselection
    rw [hsame, ← Except.ok.inj hselection.2]
    have hperm := sortBy_perm FusedIntervalAccumulator.rankLess scanned
    refine (((hperm.map _).map _).nodup_iff.mpr hnodup).sublist
      (((List.filter_sublist.trans ?_).map _).map _)
    split
    · exact List.Sublist.refl _
    · exact List.take_sublist _ _
  obtain ⟨hlength, hnodup, hsorted⟩ := htop.listed
    (fun neighbor hmem => by
      obtain ⟨id, hid, rfl⟩ := hfrom neighbor hmem
      exact hall id hid) hids (by rwa [List.length_map])
  refine ⟨listed, hsearch, hlength, hnodup, hsorted, fun neighbor hmem => ?_⟩
  obtain ⟨id, hid, rfl⟩ := hfrom neighbor (htop.members neighbor hmem)
  obtain ⟨l, o, entry, hlist, hholds, hentry, hsame⟩ := hneighbor id hid
  have hactive := (hagrees.tracks.active_iff id).mp (by rw [hentry]; rfl)
  exact ⟨hactive.1, hactive.2, l, o, entry, hlist, hholds, hentry,
    congrArg Neighbor.distance hsame⟩

/-- A point `(3, v)` of the plane with the code and the metadata of its direction
from `(3, 5)`. The payload is `v`. -/
def lineEncoder : Encoder twoLists UInt8 where
  assign := fun v => (v % 2).toUInt32
  encode := fun v =>
    let length := if 5 ≤ v then v - 5 else 5 - v
    ⟨⟨[if 5 ≤ v then 0 else 1], rfl⟩, 127 * length, 127 * length, 10⟩

/-- Six points, of which the first is erased and leaves its slot to the last one. -/
def sixPoints : Operation twoLists UInt8 := .insert ([4, 7, 6, 5, 3, 6].map byteRow)

def sixPointsSystem : System := (sixPoints.run lineEncoder .quiet System.fresh).1

def linePoints : System := (Operation.run lineEncoder .quiet sixPointsSystem (.erase [0])).1

def linePointsLedger : Ledger twoLists :=
  (Ledger.empty.record lineEncoder sixPoints
    (sixPoints.run lineEncoder .quiet System.fresh).2).record lineEncoder (.erase [0])
      (Operation.run lineEncoder .quiet sixPointsSystem (.erase [0])).2

theorem reachable_linePoints :
    Reachable lineEncoder (Succeeds lineEncoder) linePoints linePointsLedger :=
  .step .quiet (.erase [0]) (.step .quiet sixPoints .fresh ⟨[0, 1, 2, 3, 4, 5], by decide +kernel⟩)
    ⟨[], by decide +kernel⟩

/-- Both lists are probed with the quantizer of the plane. -/
def planarSearcher : Searcher twoLists where
  quantizer := planarQuantizer
  layout_eq := RecastFastScanner.planarScanner.layout_eq
  dimension_pos := Nat.two_pos.trans_eq
    (congrArg QuantizerConfig.dimension planarQuantizer_config).symm
  router := ⟨true, 2, fun _ _ => [0, 1]⟩
  options := ⟨1, 1, Nat.one_pos, Nat.le_refl 1⟩

/-- The squared distance of two points with the same first coordinate. -/
def lineDistance : ExactDistanceFunction := fun query payload _ =>
  let difference := Float32.ofNat (payload.getD 0 0).toNat - query.getD 1 0
  difference * difference

/-- The two nearest of `(3, 7)`. -/
def searchLine : Except Error (List Neighbor) :=
  planarSearcher.search planarFaiss ⟨fun _ _ => ([], 1, 0), fun _ _ _ _ => []⟩ .scalarFloat
    linePoints [3, 7] 2 2 1 5 lineDistance

theorem searchLine_eq : searchLine.toOption.map (List.map fun neighbor =>
    (neighbor.id, neighbor.distance)) = some [(1, 0), (2, 1)] := by
  decide +kernel

theorem searchLine_parameters : SelectionParameters 2 1 5 :=
  ⟨by decide, by decide, by decide, by decide, by decide⟩

theorem search_lists_active_rows_line : ∃ listed, searchLine = .ok listed ∧
    listed.map Neighbor.id = [1, 2] ∧ (∀ neighbor ∈ listed,
      neighbor.id ∈ linePointsLedger.issued ∧ neighbor.id ∉ linePointsLedger.erased ∧
        ∃ entry, linePointsLedger.contents neighbor.id = some entry ∧
          neighbor.distance = lineDistance [3, 7] entry.payload.bytes 2) := by
  have hreturns : (planarSearcher.selectCandidatesLocked planarFaiss
      ⟨fun _ _ => ([], 1, 0), fun _ _ _ _ => []⟩ .scalarFloat linePoints.index [3, 7] 2 2 1
        5).toBool = true := by decide +kernel
  have hbytes : ∀ n < 256, (lineDistance [3, 7] [UInt8.ofNat n] 2).isFinite = true ∧
      ¬lineDistance [3, 7] [UInt8.ofNat n] 2 < 0 := by decide +kernel
  cases hselected : planarSearcher.selectCandidatesLocked planarFaiss
      ⟨fun _ _ => ([], 1, 0), fun _ _ _ _ => []⟩ .scalarFloat linePoints.index [3, 7] 2 2 1 5 with
  | error error =>
      rw [hselected] at hreturns
      cases hreturns
  | ok located =>
      obtain ⟨listed, hsearch, -, -, -, hactive⟩ := search_lists_active_rows lineEncoder
        lineDistance reachable_linePoints searchLine_parameters rfl (by decide) (fun payload => by
          have h := hbytes _ (payload.getD 0 0).toNat_lt
          rw [UInt8.ofNat_toNat] at h
          exact h) hselected
      have hlisted := searchLine_eq
      rw [searchLine, hsearch] at hlisted
      refine ⟨listed, hsearch, ?_, fun neighbor hmem => ?_⟩
      · have hids := congrArg (List.map Prod.fst) (Option.some.inj hlisted)
        rwa [List.map_map] at hids
      · obtain ⟨hissued, herased, l, o, entry, -, -, hentry, hdistance⟩ := hactive neighbor hmem
        rw [show planarSearcher.quantizer.config.dimension = 2 from
          congrArg QuantizerConfig.dimension planarQuantizer_config] at hdistance
        exact ⟨hissued, herased, entry, hentry, hdistance⟩

/-- With sound intervals the interval filter drops none of the `topk` nearest of the
probed rows. When the cap does not cut off any row either, the search returns and
lists exactly the `topk` nearest of all rows of the probed lists. -/
theorem search_finds_nearest {Vector : Type*} (encoder : Encoder config Vector)
    (distanceFunction : ExactDistanceFunction)
    (hreachable : Reachable encoder (Succeeds encoder) system ledger)
    (hparameters : SelectionParameters topk zScore maxCandidates)
    (hroute : searcher.router.routePq config.nlist query nprobe = .ok selected)
    (hprobed : Probed system ledger selected ids)
    (hvalid : ∀ id ∈ ids, (ledger.neighbor (searcher.distance distanceFunction query) id).Valid)
    (hscanned : searcher.scannedRows faiss scan mode system.index selected query topk = .ok scanned)
    (hsound : Sound zScore (tokenNeighbor ledger (searcher.distance distanceFunction query) ids) scanned) :
    (∀ found, searcher.scanProbed faiss scan mode system.index selected query topk zScore
        maxCandidates = .ok found → ∀ row ∈ scanned,
      scanned.countP (fun other =>
        (tokenNeighbor ledger (searcher.distance distanceFunction query) ids other).key <
        (tokenNeighbor ledger (searcher.distance distanceFunction query) ids row).key) < topk →
      (maxCandidates = 0 ∨
        row ∈ (sortBy FusedIntervalAccumulator.rankLess scanned).take maxCandidates) →
      row ∈ found.candidates) ∧
    (maxCandidates = 0 ∨ scanned.length ≤ maxCandidates →
      ∃ listed, searcher.search faiss scan mode system query topk nprobe zScore maxCandidates
          distanceFunction = .ok listed ∧
        TopPairs topk (ids.map (ledger.neighbor (searcher.distance distanceFunction query))) listed) := by
  obtain ⟨rows, hagrees, -⟩ := hreachable.agrees (fun _ => True)
    fun _ _ _ hrule => ⟨Or.inl hrule, fun _ _ => trivial⟩
  let distance := searcher.distance distanceFunction query
  obtain ⟨-, hrows, htopk, henough, -, -⟩ := scannedRows_spec hscanned
  have hmap := map_tokenNeighbor hprobed hscanned distance
  have hnear : ∀ row ∈ scanned, (tokenNeighbor ledger distance ids row).Valid := by
    intro row hrow
    have hmem := List.mem_map_of_mem (f := tokenNeighbor ledger distance ids) hrow
    rw [hmap] at hmem
    obtain ⟨id, hid, hsame⟩ := List.mem_map.mp hmem
    exact hsame ▸ hvalid id hid
  constructor
  · intro found hfound row hrow hnearest hbest
    obtain ⟨scanned', selection, hscanned', hselection, hsame⟩ :=
      found_candidates hparameters hfound
    obtain rfl := Except.ok.inj (hscanned.symm.trans hscanned')
    rw [hsame]
    exact hsound.keeps hrows hnear htopk hselection hrow hnearest hbest
  · intro hwide
    obtain ⟨selection, hselection, hcount, hshort⟩ :=
      hsound.shortlist hrows hnear htopk henough hwide
    have hprobe := @scanProbed_same config searcher faiss scan mode query topk maxCandidates zScore
      selected system.index hparameters
    rw [hscanned, ok_bind, hselection] at hprobe
    cases hfound : searcher.scanProbed faiss scan mode system.index selected query topk zScore
        maxCandidates with
    | error error =>
        rw [hfound] at hprobe
        exact hprobe.elim
    | ok found =>
        rw [hfound] at hprobe
        have hsame : found.candidates = selection.candidates := hprobe.1
        obtain ⟨listed, hsearch, htop⟩ := search_of_selected hagrees hroute hprobed hvalid hscanned
          hfound (fun row hrow => mem_of_intervalSelection hselection (hsame ▸ hrow))
          (hsame ▸ hcount)
        refine ⟨listed, hsearch, ?_, fun neighbor hmem => ?_⟩
        · have hkeys := hshort.take_keys
          rw [htop.keys, List.map_map, hsame]
          refine Eq.trans hkeys ?_
          rw [← hmap, List.map_map]
          rfl
        · obtain ⟨row, hrow, rfl⟩ := List.mem_map.mp (htop.members neighbor hmem)
          rw [← hmap]
          exact List.mem_map_of_mem (mem_of_intervalSelection hselection (hsame ▸ hrow))

/-- Every interval contains the exact distance. Two of the five points are pruned,
and of the two that are next to the nearest the search lists the one with the
smaller ID. -/
theorem search_finds_nearest_line : ∃ (ids : List Nat) (listed : List Neighbor),
    Probed linePoints linePointsLedger [0, 1] ids ∧ searchLine = .ok listed ∧
      TopPairs 2 (ids.map (linePointsLedger.neighbor fun payload => lineDistance [3, 7] payload 2))
        listed ∧
      ids = [5, 2, 1, 3, 4] ∧ listed.map Neighbor.id = [1, 2] ∧
      (planarSearcher.scanProbed planarFaiss ⟨fun _ _ => ([], 1, 0), fun _ _ _ _ => []⟩
        .scalarFloat linePoints.index [0, 1] [3, 7] 2 1 5).toOption.map (fun found =>
          found.candidates.map fun row => ids.getD row.id 0) = some [1, 5, 2] := by
  obtain ⟨rows, hagrees, -⟩ := reachable_linePoints.agrees (fun _ => True)
    fun _ _ _ hrule => ⟨Or.inl hrule, fun _ _ => trivial⟩
  obtain ⟨ids, hprobed⟩ := hagrees.exists_probed [0, 1]
  -- the records of the probed slots tell the IDs
  have hids : ids = [5, 2, 1, 3, 4] := by
    let idAt := fun slot : Nat × Nat => ((linePoints.storage.records slot.1).map fun file =>
      Record.idOf (twoLists.records.paging.slotAt file slot.2)).getD 0
    have hslots : List.Forall₂ (fun slot id => idAt slot = id)
        (probedSlots linePoints.index [0, 1]) ids := by
      refine hprobed.imp fun slot id hslot => ?_
      obtain ⟨entry, -, hholds⟩ := hslot
      obtain ⟨file, hfile, hid, -⟩ := hholds.record
      simp only [idAt, hfile, Option.map_some, Option.getD_some, hid]
    have hmap := List.forall₂_map_left_iff.mpr hslots
    rw [List.forall₂_eq_eq_eq] at hmap
    rw [← hmap]
    decide +kernel
  have hdistance : planarSearcher.distance lineDistance [3, 7] =
      fun payload => lineDistance [3, 7] payload 2 := rfl
  subst hids
  have hrows : ((planarSearcher.scannedRows planarFaiss
      ⟨fun _ _ => ([], 1, 0), fun _ _ _ _ => []⟩ .scalarFloat linePoints.index [0, 1] [3, 7]
        2).toOption.any fun rows => rows.length == 5 && rows.all fun row =>
          let near := tokenNeighbor linePointsLedger (fun payload => lineDistance [3, 7] payload 2)
            [5, 2, 1, 3, 4] row
          Ieee.le (row.lower 1) near.distance && Ieee.le near.distance (row.upper 1)) = true := by
    decide +kernel
  cases hscanned : planarSearcher.scannedRows planarFaiss
      ⟨fun _ _ => ([], 1, 0), fun _ _ _ _ => []⟩ .scalarFloat linePoints.index [0, 1] [3, 7]
        2 with
  | error error =>
      rw [hscanned] at hrows
      cases hrows
  | ok scanned =>
      rw [hscanned] at hrows
      obtain ⟨hlength, hsound⟩ := Bool.and_eq_true_iff.mp hrows
      have hroute : planarSearcher.router.routePq twoLists.nlist [3, 7] 2 = .ok [0, 1] := rfl
      have hvalid : ∀ id ∈ [5, 2, 1, 3, 4], (linePointsLedger.neighbor
          (planarSearcher.distance lineDistance [3, 7]) id).Valid := by
        rw [hdistance]
        unfold Neighbor.Valid
        decide +kernel
      have hinside : Sound 1 (tokenNeighbor linePointsLedger
          (planarSearcher.distance lineDistance [3, 7]) [5, 2, 1, 3, 4]) scanned := by
        rw [hdistance]
        exact fun row hrow => Bool.and_eq_true_iff.mp (List.all_eq_true.mp hsound row hrow)
      obtain ⟨listed, hsearch, htop⟩ := (search_finds_nearest lineEncoder lineDistance
        reachable_linePoints searchLine_parameters hroute hprobed hvalid hscanned hinside).2
          (.inr (Nat.le_of_eq (eq_of_beq hlength)))
      have hlisted := searchLine_eq
      rw [searchLine, hsearch] at hlisted
      have hids := congrArg (List.map Prod.fst) (Option.some.inj hlisted)
      rw [List.map_map] at hids
      rw [hdistance] at htop
      exact ⟨_, listed, hprobed, hsearch, htop, rfl, hids, by decide +kernel⟩

end Runs

end Searcher

end Recast
