import Recast.Scan.Reservoir

/-!
# What the collector selects

Rows come in any batches. The reservoir is always a shortlist of them for the
smallest ranks, and a row the admission threshold refuses has enough rows of the
reservoir below it. The heap has the smallest upper endpoints. At the end the
reservoir is cut down to the smallest ranks exactly.
-/

namespace Recast

open Foundation

section

variable {E K : Type}

/-- The rank of a row: by estimate, then by ID. -/
def rowRank (key : E → K) : DistanceEstimate E → K ×ₗ ℕ :=
  rankOf key DistanceEstimate.estimatedDistance DistanceEstimate.id

/-- Rows of distinct IDs have distinct ranks. -/
theorem rowRank_injective (key : E → K) {rows : List (DistanceEstimate E)}
    (hids : (rows.map DistanceEstimate.id).Nodup) {x y : DistanceEstimate E} (hx : x ∈ rows)
    (hy : y ∈ rows) (h : rowRank key x = rowRank key y) : x = y :=
  List.inj_on_of_nodup_map hids hx hy (congrArg Prod.snd (toLex.injective h))

theorem compress16_self {α : Type} (keep : α → Bool) (rows : List α) :
    compress16 keep keep rows = rows.filter keep := by
  rw [compress16, ← List.filter_append, List.take_append_drop]

namespace FusedIntervalAccumulator

variable {accumulator : FusedIntervalAccumulator E} {rows : List (DistanceEstimate E)}

/-- What the constructor sets. -/
def parameters (accumulator : FusedIntervalAccumulator E) : Bool × ℕ × E × ℕ :=
  (accumulator.avx512, accumulator.topk, accumulator.zScore, accumulator.maxCandidates)

/-- What the steps on the reservoir leave as it is. -/
def frame (accumulator : FusedIntervalAccumulator E) : (Bool × ℕ × E × ℕ) × ℕ × List E :=
  (accumulator.parameters, accumulator.seen, accumulator.smallestUppers)

theorem append_frame (rows : List (DistanceEstimate E)) :
    (accumulator.append rows).frame = accumulator.frame := by
  have hspace : (accumulator.ensureUncappedSpace rows.length).frame = accumulator.frame := by
    unfold ensureUncappedSpace resizePlanes
    split
    · rfl
    · split <;> rfl
  unfold FusedIntervalAccumulator.append
  dsimp only
  split
  · exact hspace
  · exact hspace

theorem append_spec (hrunning : accumulator.failure = none) {rows : List (DistanceEstimate E)}
    (hroom : accumulator.reservoir.length + rows.length ≤ planeMax) :
    ∃ length writes, accumulator.append rows = { accumulator with
      reservoir := accumulator.reservoir ++ rows
      planeLength := length
      writes := writes } := by
  rcases Nat.eq_zero_or_pos accumulator.maxCandidates with hzero | hcap
  · unfold FusedIntervalAccumulator.append ensureUncappedSpace resizePlanes
    rw [if_neg hzero.not_gt, if_neg (not_lt.mpr hroom)]
    dsimp only
    rw [hrunning]
    exact ⟨_, _, rfl⟩
  · exact ⟨_, _, append_capped hrunning hcap rows⟩

@[simp] theorem compactThreshold_reservoir (keep : DistanceEstimate E → Bool) :
    (accumulator.compactThreshold keep).reservoir = accumulator.reservoir.filter keep := by
  unfold FusedIntervalAccumulator.compactThreshold FusedIntervalAccumulator.replaceReservoir
  dsimp only
  split
  · exact compress16_self keep _
  · rfl

/-- Rows a scan may meet: numbers with distinct IDs. -/
structure Scannable (valid : E → Prop) (upper : DistanceEstimate E → E)
    (rows : List (DistanceEstimate E)) : Prop where
  estimates : ∀ row ∈ rows, valid row.estimatedDistance
  uppers : ∀ row ∈ rows, valid (upper row)
  ids : (rows.map DistanceEstimate.id).Nodup
  room : rows.length ≤ planeMax

/-- Distinct IDs of 32 bits fit the planes. -/
theorem ids_room (hids : (rows.map DistanceEstimate.id).Nodup)
    (hbits : ∀ row ∈ rows, row.id < 2 ^ 32) : rows.length ≤ planeMax := by
  have hsubset : rows.map DistanceEstimate.id ⊆ List.range (2 ^ 32) := by
    intro id hid
    obtain ⟨row, hrow, rfl⟩ := List.mem_map.mp hid
    exact List.mem_range.mpr (hbits row hrow)
  have hlength := (List.subperm_of_subset hids hsubset).length_le
  rw [List.length_map, List.length_range] at hlength
  exact hlength.trans (by decide)

theorem Scannable.front {valid : E → Prop} {upper : DistanceEstimate E → E}
    {batch : List (DistanceEstimate E)}
    (h : Scannable valid upper (rows ++ batch)) : Scannable valid upper rows where
  estimates row hrow := h.estimates row (List.mem_append_left _ hrow)
  uppers row hrow := h.uppers row (List.mem_append_left _ hrow)
  ids := h.ids.sublist ((List.sublist_append_left _ _).map _)
  room := by
    have := h.room
    rw [List.length_append] at this
    omega

/-- Rows with their endpoints. -/
theorem map_fst_pairs (upper : DistanceEstimate E → E) (block : List (DistanceEstimate E)) :
    (block.map fun row => (row, upper row)).map Prod.fst = block := by
  rw [List.map_map]
  exact List.map_id block

theorem map_snd_pairs (upper : DistanceEstimate E → E) (block : List (DistanceEstimate E)) :
    (block.map fun row => (row, upper row)).map Prod.snd = block.map upper := by
  rw [List.map_map]
  rfl

end FusedIntervalAccumulator

variable [LinearOrder K]

theorem rowRank_lt {key : E → K} {x y : DistanceEstimate E} :
    rowRank key x < rowRank key y ↔
      key x.estimatedDistance < key y.estimatedDistance ∨
        key x.estimatedDistance = key y.estimatedDistance ∧ x.id < y.id := Prod.Lex.toLex_lt_toLex

theorem rowRank_le {key : E → K} {x y : DistanceEstimate E} :
    rowRank key x ≤ rowRank key y ↔
      key x.estimatedDistance < key y.estimatedDistance ∨
        key x.estimatedDistance = key y.estimatedDistance ∧ x.id ≤ y.id := Prod.Lex.toLex_le_toLex

variable [Ieee E] {key : E → K} {valid : E → Prop}

theorem rankLess_compares (hordered : Ieee.OrderedBy key valid) :
    ComparesBy FusedIntervalAccumulator.rankLess (rowRank key)
      fun row : DistanceEstimate E => valid row.estimatedDistance := by
  intro x y hx hy
  rw [FusedIntervalAccumulator.rankLess, Bool.or_eq_true, Bool.and_eq_true, decide_eq_true_eq,
    hordered.lt_iff hx hy, hordered.beq_iff hx hy, rowRank_lt]

namespace FusedIntervalAccumulator

variable {accumulator : FusedIntervalAccumulator E}

/-- Take in the rows the threshold admits, all at once. -/
def takeRows (rows : List (DistanceEstimate E)) (accumulator : FusedIntervalAccumulator E) :
    FusedIntervalAccumulator E :=
  let admitted := rows.filter fun row =>
    admits accumulator.admissionThreshold row.estimatedDistance row.id
  if admitted = [] then accumulator else (accumulator.append admitted).shrinkIfFull

theorem addScalar_eq (hrunning : accumulator.failure = none) (row : DistanceEstimate E) :
    accumulator.addScalar row = accumulator.takeRows [row] := by
  rw [addScalar, if_neg (by simp [hrunning]), takeRows]
  cases hadmits : admits accumulator.admissionThreshold row.estimatedDistance row.id <;>
    simp [hadmits]

theorem shrinkIfFull_frame : accumulator.shrinkIfFull.frame = accumulator.frame := by
  unfold FusedIntervalAccumulator.shrinkIfFull fuzzyShrinkShortlist
  split
  · rfl
  · split
    · rfl
    · split
      · rfl
      · dsimp only
        split <;> rfl

theorem takeRows_frame (rows : List (DistanceEstimate E)) :
    (accumulator.takeRows rows).frame = accumulator.frame := by
  unfold takeRows
  dsimp only
  split
  · rfl
  · exact shrinkIfFull_frame.trans (append_frame _)

/-- The reservoir after some rows, when the `limit` smallest are wanted. -/
structure Collects (key : E → K) (valid : E → Prop) (limit : ℕ) (rows : List (DistanceEstimate E))
    (accumulator : FusedIntervalAccumulator E) : Prop where
  running : accumulator.failure = none
  capped : 0 < accumulator.maxCandidates →
    accumulator.maxCandidates = limit ∧ accumulator.reservoirCapacity = 2 * limit
  shortlist : Shortlist (rowRank key) limit rows accumulator.reservoir
  refuses : ∀ row : DistanceEstimate E, valid row.estimatedDistance →
    row.id ∉ accumulator.reservoir.map DistanceEstimate.id →
    admits accumulator.admissionThreshold row.estimatedDistance row.id = false →
    limit ≤ accumulator.reservoir.countP fun other => rowRank key other < rowRank key row

variable {limit : ℕ} {rows : List (DistanceEstimate E)}

theorem Collects.mem (h : Collects key valid limit rows accumulator) {row : DistanceEstimate E}
    (hrow : row ∈ accumulator.reservoir) : row ∈ rows := h.shortlist.mem hrow

theorem Collects.nodup (h : Collects key valid limit rows accumulator)
    (hids : (rows.map DistanceEstimate.id).Nodup) :
    (accumulator.reservoir.map DistanceEstimate.id).Nodup := by
  obtain ⟨dropped, hperm, -⟩ := h.shortlist
  refine ((hperm.map DistanceEstimate.id).nodup_iff.mpr hids).sublist ?_
  exact (List.sublist_append_left _ _).map _

/-- New rows are appended, less the refused ones. -/
theorem Collects.append (h : Collects key valid limit rows accumulator)
    {batch : List (DistanceEstimate E)} (hvalid : ∀ row ∈ batch, valid row.estimatedDistance)
    (hids : ((rows ++ batch).map DistanceEstimate.id).Nodup)
    (hroom : (rows ++ batch).length ≤ planeMax) :
    Collects key valid limit (rows ++ batch) (accumulator.append (batch.filter fun row =>
      admits accumulator.admissionThreshold row.estimatedDistance row.id)) := by
  have hnew {row : DistanceEstimate E} (hrow : row ∈ batch) :
      row.id ∉ accumulator.reservoir.map DistanceEstimate.id := by
    intro hmem
    obtain ⟨old, hold, heq⟩ := List.mem_map.mp hmem
    rw [List.map_append, List.nodup_append] at hids
    exact hids.2.2 _ (List.mem_map_of_mem (h.mem hold)) _ (List.mem_map_of_mem hrow) heq
  have hadmitted : accumulator.reservoir.length + (batch.filter fun row =>
      admits accumulator.admissionThreshold row.estimatedDistance row.id).length ≤ planeMax := by
    have hold := h.shortlist.length_le
    have hbatch := List.length_filter_le
      (fun row => admits accumulator.admissionThreshold row.estimatedDistance row.id) batch
    rw [List.length_append] at hroom
    omega
  obtain ⟨length, writes, happend⟩ := append_spec h.running hadmitted
  rw [happend]
  refine ⟨h.running, h.capped, ?_, fun row hrow hid hrefused => ?_⟩
  · refine h.shortlist.extend (List.filter_append_perm _ batch) fun row hrow => ?_
    obtain ⟨hrow, hrefused⟩ := List.mem_filter.mp hrow
    exact h.refuses row (hvalid row hrow) (hnew hrow) (by simpa using hrefused)
  · rw [List.map_append, List.mem_append, not_or] at hid
    rw [List.countP_append]
    exact Nat.le_add_right_of_le (h.refuses row hrow hid.1 hrefused)

/-- A shrink keeps the smallest ranks, at least `limit` of them, and its threshold
refuses only rows above all of them. -/
theorem Collects.fuzzyShrink (h : Collects key valid limit rows accumulator)
    (hordered : Ieee.OrderedBy key valid) (hnegInfinity : valid Ieee.negInfinity)
    (hvalid : ∀ row ∈ rows, valid row.estimatedDistance)
    (hids : (rows.map DistanceEstimate.id).Nodup) (hpos : 0 < limit) {qMax : ℕ}
    (hq : limit ≤ qMax) :
    Collects key valid limit rows (accumulator.fuzzyShrinkShortlist limit qMax) := by
  unfold fuzzyShrinkShortlist
  split
  next => exact h
  next hcount =>
    have hestimates : ∀ row ∈ accumulator.reservoir, valid row.estimatedDistance :=
      fun row hrow => hvalid row (h.mem hrow)
    obtain ⟨threshold, hfind, hthreshold, hlow, -, hleast⟩ :=
      findFuzzyRankThreshold_spec hordered hnegInfinity hestimates (h.nodup hids) hpos hq
        (not_le.mp hcount)
    have hsize := hleast.length
    rw [hfind]
    dsimp only
    rw [compactThreshold_reservoir, if_neg (not_not.mpr hsize)]
    refine ⟨h.running, h.capped, ?_, fun row hrow hid hrefused => ?_⟩
    · rw [compactThreshold_reservoir]
      exact h.shortlist.shrink hlow hleast
    · rw [compactThreshold_reservoir] at hid ⊢
      rw [List.countP_eq_length.mpr, hsize]
      · exact hlow
      intro other hother
      have hkept := (List.mem_filter.mp hother)
      rw [keeps_iff DistanceEstimate.id hordered hthreshold (hestimates other hkept.1)] at hkept
      -- the refused row is at or above the threshold, and its ID is not a kept one
      have hdistinct : other.id ≠ row.id := fun heq => hid (heq ▸ List.mem_map_of_mem hother)
      have habove : ¬(key row.estimatedDistance < key threshold.estimate ∨
          key row.estimatedDistance = key threshold.estimate ∧ row.id < threshold.id) := by
        have hrefused : admits (some (threshold.estimate, threshold.id)) row.estimatedDistance
          row.id = false := hrefused
        rw [← hordered.lt_iff hrow hthreshold, ← hordered.beq_iff hrow hthreshold]
        simpa [admits] using hrefused
      rw [not_or, not_lt, not_and] at habove
      rw [decide_eq_true_eq, rowRank_lt]
      rcases hkept.2 with hbelow | ⟨-, heq, hlast⟩
      · exact .inl (hbelow.trans_le habove.1)
      · rcases habove.1.lt_or_eq with hlt | hat
        · exact .inl (heq.trans_lt hlt)
        · have := habove.2 hat.symm
          exact .inr ⟨heq.trans hat, by omega⟩

theorem Collects.shrinkIfFull (h : Collects key valid limit rows accumulator)
    (hordered : Ieee.OrderedBy key valid) (hnegInfinity : valid Ieee.negInfinity)
    (hvalid : ∀ row ∈ rows, valid row.estimatedDistance)
    (hids : (rows.map DistanceEstimate.id).Nodup) :
    Collects key valid limit rows accumulator.shrinkIfFull := by
  unfold FusedIntervalAccumulator.shrinkIfFull
  split
  next => exact h
  next hfull =>
    rw [not_or, not_or] at hfull
    have hcap := Nat.pos_of_ne_zero hfull.2.1
    obtain ⟨hlimit, hcapacity⟩ := h.capped hcap
    rw [hlimit] at hcap ⊢
    exact h.fuzzyShrink hordered hnegInfinity hvalid hids hcap (Nat.le_add_right _ _)

/-- One step: rows of new IDs come in. -/
theorem Collects.takeRows (h : Collects key valid limit rows accumulator)
    (hordered : Ieee.OrderedBy key valid) (hnegInfinity : valid Ieee.negInfinity)
    {batch : List (DistanceEstimate E)}
    (hvalid : ∀ row ∈ rows ++ batch, valid row.estimatedDistance)
    (hids : ((rows ++ batch).map DistanceEstimate.id).Nodup)
    (hroom : (rows ++ batch).length ≤ planeMax) :
    Collects key valid limit (rows ++ batch) (accumulator.takeRows batch) := by
  have happended := h.append (fun row hrow => hvalid row (List.mem_append_right _ hrow)) hids hroom
  unfold FusedIntervalAccumulator.takeRows
  dsimp only
  split
  next hnone =>
    rw [hnone] at happended
    obtain ⟨length, writes, happend⟩ := @append_spec E accumulator h.running [] (by
      have := h.shortlist.length_le
      rw [List.length_append] at hroom
      simp only [List.length_nil]
      omega)
    rw [happend, List.append_nil] at happended
    exact ⟨h.running, h.capped, happended.shortlist, happended.refuses⟩
  next => exact happended.shrinkIfFull hordered hnegInfinity hvalid hids

/-! ## The heap -/

theorem updateUpper_eq {topk : ℕ} (hpos : 0 < topk) {heap : List E} (hlength : heap.length ≤ topk)
    (upper : E) : updateUpper topk heap upper = boundedPush Ieee.lt topk heap upper := by
  have hpushed := (heapPush_perm Ieee.lt upper heap).length_eq
  rw [List.length_cons] at hpushed
  unfold updateUpper boundedPush
  split
  next hroom => rw [if_neg (by omega)]
  next hfull =>
    rw [if_pos (by omega)]
    cases heap with
    | nil => simp at hfull; omega
    | cons top rest =>
        rw [heapPush]
        dsimp only
        split <;> rfl

theorem updateUppers {topk : ℕ} (hordered : Ieee.OrderedBy key valid) (hpos : 0 < topk)
    {seen heap : List E} (h : Smallest key topk seen heap) (hseen : ∀ upper ∈ seen, valid upper)
    {uppers : List E} (huppers : ∀ upper ∈ uppers, valid upper) :
    Smallest key topk (seen ++ uppers) (uppers.foldl (updateUpper topk) heap) := by
  induction uppers generalizing seen heap with
  | nil => rwa [List.append_nil]
  | cons upper rest ih =>
      have hupper := huppers upper List.mem_cons_self
      have hpushed := h.push (lt_comparesBy hordered) hseen hupper
      rw [List.foldl_cons, updateUpper_eq hpos h.length_le, List.append_cons]
      refine ih hpushed (fun y hy => ?_) fun y hy => huppers y (List.mem_cons_of_mem _ hy)
      rcases List.mem_append.mp hy with hy | hy
      · exact hseen y hy
      · rwa [List.mem_singleton.mp hy]

/-- The endpoints a full heap lets pass are enough. -/
theorem updateUppers_passing {topk : ℕ} (hordered : Ieee.OrderedBy key valid) (hpos : 0 < topk)
    {seen heap : List E} (h : Smallest key topk seen heap) (hseen : ∀ upper ∈ seen, valid upper)
    {uppers : List E} (huppers : ∀ upper ∈ uppers, valid upper) :
    Smallest key topk (seen ++ uppers)
      ((uppers.filter (passes topk heap)).foldl (updateUpper topk) heap) := by
  have hsplit := List.filter_append_perm (passes topk heap) uppers
  have hstopped : Smallest key topk (seen ++ uppers.filter fun upper => !passes topk heap upper)
      heap := by
    obtain ⟨rest, hperm, hbest, hfull⟩ := h.rest
    refine ⟨h.sorted, h.length_le, rest ++ uppers.filter fun upper => !passes topk heap upper,
      ?_, fun x hx y hy => ?_, ?_⟩
    · rw [← List.append_assoc]
      exact hperm.append_right _
    · rcases List.mem_append.mp hy with hy | hy
      · exact hbest x hx y hy
      · -- a stopped endpoint is not below the top, which is the largest
        obtain ⟨hmem, hstop⟩ := List.mem_filter.mp hy
        cases heap with
        | nil => cases hx
        | cons top others =>
            have htop := hseen top (h.mem List.mem_cons_self)
            have hnot : ¬key y < key top := by
              rw [← hordered.lt_iff (huppers y hmem) htop, Bool.not_eq_true]
              rw [passes, Bool.not_eq_true', Bool.or_eq_false_iff] at hstop
              exact hstop.2
            refine le_trans ?_ (not_lt.mp hnot)
            rcases List.mem_cons.mp hx with rfl | hx
            · exact le_rfl
            · exact (List.pairwise_cons.mp h.sorted).1 x hx
    · by_cases hroom : heap.length < topk
      · left
        rw [hfull.resolve_right hroom.ne, List.nil_append]
        refine List.filter_eq_nil_iff.mpr fun upper _ => ?_
        cases heap with
        | nil => simp [passes]
        | cons top others =>
            rw [passes, decide_eq_true hroom, Bool.true_or]
            exact Bool.noConfusion
      · exact .inr (h.length_le.antisymm (not_lt.mp hroom))
  have hpassing := updateUppers hordered hpos hstopped (fun y hy => ?_)
    (fun y hy => huppers y (List.mem_of_mem_filter hy) : ∀ y ∈ uppers.filter (passes topk heap), _)
  · obtain ⟨rest, hperm, hbest, hfull⟩ := hpassing.rest
    refine ⟨hpassing.sorted, hpassing.length_le, rest, hperm.trans ?_, hbest, hfull⟩
    rw [List.append_assoc]
    exact (List.perm_append_comm.trans hsplit).append_left seen
  · rcases List.mem_append.mp hy with hy | hy
    · exact hseen y hy
    · exact huppers y (List.mem_of_mem_filter hy)

/-! ## The scan -/

/-- The collector after some rows with their upper endpoints. -/
structure Scanned (key : E → K) (valid : E → Prop) (limit : ℕ)
    (parameters : Bool × ℕ × E × ℕ) (upper : DistanceEstimate E → E)
    (rows : List (DistanceEstimate E)) (accumulator : FusedIntervalAccumulator E) : Prop where
  parameters_eq : accumulator.parameters = parameters
  collects : Collects key valid limit rows accumulator
  seen : accumulator.seen = rows.length
  uppers : Smallest key accumulator.topk (rows.map upper) accumulator.smallestUppers

variable {parameters : Bool × ℕ × E × ℕ} {upper : DistanceEstimate E → E}

/-- The rows of a block one by one. -/
theorem Collects.addScalars (hordered : Ieee.OrderedBy key valid)
    (hnegInfinity : valid Ieee.negInfinity) (h : Collects key valid limit rows accumulator)
    {block : List (DistanceEstimate E)} (hscannable : Scannable valid upper (rows ++ block)) :
    Collects key valid limit (rows ++ block) (block.foldl addScalar accumulator) ∧
      (block.foldl addScalar accumulator).frame = accumulator.frame := by
  induction block generalizing rows accumulator with
  | nil => exact ⟨by rwa [List.append_nil], rfl⟩
  | cons row rest ih =>
      rw [List.append_cons] at hscannable ⊢
      have hfront := hscannable.front
      have hstep := h.takeRows hordered hnegInfinity hfront.estimates hfront.ids hfront.room
      rw [List.foldl_cons, addScalar_eq h.running]
      obtain ⟨hrest, hframe⟩ := ih hstep hscannable
      exact ⟨hrest, hframe.trans (takeRows_frame _)⟩

/-- Counting rows and pushing their endpoints leaves the reservoir. -/
theorem Collects.pushUppers (h : Collects key valid limit rows accumulator) (count : ℕ)
    (uppers : List E) : Collects key valid limit rows (accumulator.pushUppers count uppers) :=
  ⟨h.running, h.capped, h.shortlist, h.refuses⟩

/-- Rows whose endpoints are pushed and which are then taken in are scanned. -/
theorem Scanned.step (h : Scanned key valid limit parameters upper rows accumulator)
    {batch : List (DistanceEstimate E)} {uppers : List E} {next : FusedIntervalAccumulator E}
    (hcollects : Collects key valid limit (rows ++ batch) next)
    (hframe : next.frame = (accumulator.pushUppers batch.length uppers).frame)
    (huppers : Smallest key accumulator.topk (rows.map upper ++ batch.map upper)
      (uppers.foldl (updateUpper accumulator.topk) accumulator.smallestUppers)) :
    Scanned key valid limit parameters upper (rows ++ batch) next := by
  simp only [frame, FusedIntervalAccumulator.pushUppers, Prod.mk.injEq] at hframe
  obtain ⟨hparameters, hseen, hheap⟩ := hframe
  have htopk : next.topk = accumulator.topk :=
    congrArg (fun parameters : Bool × ℕ × E × ℕ => parameters.2.1) hparameters
  refine ⟨hparameters.trans h.parameters_eq, hcollects, ?_, ?_⟩
  · rw [hseen, h.seen, List.length_append]
  · rwa [hheap, htopk, List.map_append]

theorem Scanned.topk_eq (h : Scanned key valid limit parameters upper rows accumulator) :
    accumulator.topk = parameters.2.1 :=
  congrArg (fun parameters : Bool × ℕ × E × ℕ => parameters.2.1) h.parameters_eq

theorem Scanned.addScalarBlock (hordered : Ieee.OrderedBy key valid)
    (hnegInfinity : valid Ieee.negInfinity) (hpos : 0 < parameters.2.1)
    (h : Scanned key valid limit parameters upper rows accumulator)
    {block : List (DistanceEstimate E)} (hscannable : Scannable valid upper (rows ++ block)) :
    Scanned key valid limit parameters upper (rows ++ block)
      (accumulator.addScalarBlock (block.map fun row => (row, upper row))) := by
  have htopk : 0 < accumulator.topk := h.topk_eq.symm ▸ hpos
  rw [FusedIntervalAccumulator.addScalarBlock, if_neg (by simp [h.collects.running]),
    map_fst_pairs, map_snd_pairs, List.length_map]
  obtain ⟨hcollects, hframe⟩ := (h.collects.pushUppers block.length (block.map upper)).addScalars
    hordered hnegInfinity hscannable
  refine h.step hcollects hframe (updateUppers hordered htopk h.uppers ?_ ?_)
  · rw [List.forall_mem_map]
    exact hscannable.front.uppers
  · rw [List.forall_mem_map]
    exact fun row hrow => hscannable.uppers row (List.mem_append_right _ hrow)

theorem Scanned.add16Avx512 (hordered : Ieee.OrderedBy key valid)
    (hnegInfinity : valid Ieee.negInfinity) (hpos : 0 < parameters.2.1)
    (h : Scanned key valid limit parameters upper rows accumulator)
    {batch : List (DistanceEstimate E)} (hscannable : Scannable valid upper (rows ++ batch)) :
    Scanned key valid limit parameters upper (rows ++ batch)
      (accumulator.add16Avx512 (batch.map fun row => (row, upper row))) := by
  have htopk : 0 < accumulator.topk := h.topk_eq.symm ▸ hpos
  rcases eq_or_ne batch [] with rfl | hsome
  · rw [List.append_nil, FusedIntervalAccumulator.add16Avx512, if_pos (.inr rfl)]
    exact h
  rw [FusedIntervalAccumulator.add16Avx512, if_neg (by simp [h.collects.running, hsome])]
  dsimp only
  rw [map_fst_pairs, map_snd_pairs, List.length_map]
  let passing := (batch.map upper).filter (passes accumulator.topk accumulator.smallestUppers)
  have hcollects := (h.collects.pushUppers batch.length passing).takeRows hordered hnegInfinity
    hscannable.estimates hscannable.ids hscannable.room
  have hframe := @takeRows_frame E _ (accumulator.pushUppers batch.length passing) batch
  refine h.step hcollects hframe (updateUppers_passing hordered htopk h.uppers ?_ ?_)
  · rw [List.forall_mem_map]
    exact hscannable.front.uppers
  · rw [List.forall_mem_map]
    exact fun row hrow => hscannable.uppers row (List.mem_append_right _ hrow)

/-- A whole scan, from the constructor on. -/
theorem Scanned.blocks {step : FusedIntervalAccumulator E → List (DistanceEstimate E) →
      FusedIntervalAccumulator E}
    (hstep : ∀ accumulator rows block,
      Scanned key valid limit parameters upper rows accumulator →
      Scannable valid upper (rows ++ block) →
      Scanned key valid limit parameters upper (rows ++ block) (step accumulator block))
    (h : Scanned key valid limit parameters upper rows accumulator)
    {blocks : List (List (DistanceEstimate E))}
    (hscannable : Scannable valid upper (rows ++ blocks.flatten)) :
    Scanned key valid limit parameters upper (rows ++ blocks.flatten)
      (blocks.foldl step accumulator) := by
  induction blocks generalizing rows accumulator with
  | nil => rwa [List.flatten_nil, List.append_nil]
  | cons block rest ih =>
      rw [List.flatten_cons, ← List.append_assoc] at hscannable ⊢
      exact ih (hstep accumulator rows block h hscannable.front) hscannable

/-- The constructor has scanned nothing. -/
theorem create_scanned {avx512 : Bool} {topk : ℕ} {zScore : E} {maxCandidates : ℕ}
    {start : FusedIntervalAccumulator E}
    (hcreate : create avx512 topk zScore maxCandidates = .ok start)
    (hlimit : 0 < maxCandidates → maxCandidates = limit) :
    0 < topk ∧
      Scanned key valid limit (avx512, topk, zScore, maxCandidates) upper [] start := by
  obtain ⟨-, -, hpos, rfl⟩ := create_eq_ok hcreate
  refine ⟨hpos, rfl, ⟨rfl, fun hcap => ⟨hlimit hcap, ?_⟩, Shortlist.nil _ _, ?_⟩, rfl,
    Smallest.nil _ _⟩
  · simp only
    rw [hlimit hcap]
  · intro row _ _ hrefused
    cases hrefused

/-! ## The end of a scan -/

/-- The exact shrink leaves the smallest ranks. -/
theorem Collects.shrinkShortlist (h : Collects key valid limit rows accumulator)
    (hordered : Ieee.OrderedBy key valid) (hscannable : Scannable valid upper rows)
    (hpos : 0 < limit) :
    (accumulator.shrinkShortlist limit).parameters = accumulator.parameters ∧
      Least (rowRank key) (min limit rows.length) rows
        (accumulator.shrinkShortlist limit).reservoir := by
  unfold FusedIntervalAccumulator.shrinkShortlist
  split
  next hshort => exact ⟨rfl, h.shortlist.least hshort⟩
  next hlong =>
    have hvalid : ∀ row ∈ accumulator.reservoir, valid row.estimatedDistance :=
      fun row hrow => hscannable.estimates row (h.mem hrow)
    have hids := h.nodup hscannable.ids
    have hperm := sortBy_perm rankLess accumulator.reservoir
    have hlength := hperm.length_eq
    have hplace : limit - 1 < (sortBy rankLess accumulator.reservoir).length := by omega
    rw [List.getElem?_eq_getElem hplace]
    have hlast := hperm.subset (List.getElem_mem hplace)
    obtain ⟨hbelow, hupTo⟩ := sorted_rank (sortBy_sorted (rankLess_compares hordered) hvalid)
      (List.getElem?_eq_getElem hplace)
    rw [hperm.countP_eq] at hbelow hupTo
    generalize (sortBy rankLess accumulator.reservoir)[limit - 1] = last at hlast hbelow hupTo
    dsimp only
    let keep : DistanceEstimate E → Bool := fun row =>
      Ieee.lt row.estimatedDistance last.estimatedDistance ||
        (Ieee.beq row.estimatedDistance last.estimatedDistance && decide (row.id ≤ last.id))
    have hkeep {row : DistanceEstimate E} (hrow : row ∈ accumulator.reservoir) :
        keep row = true ↔ rowRank key row ≤ rowRank key last := by
      rw [Bool.or_eq_true, Bool.and_eq_true, decide_eq_true_eq,
        hordered.lt_iff (hvalid row hrow) (hvalid last hlast),
        hordered.beq_iff (hvalid row hrow) (hvalid last hlast)]
      exact rowRank_le.symm
    have honce : accumulator.reservoir.countP
        (fun row => rowRank key row = rowRank key last) ≤ 1 := by
      have hcount := List.nodup_iff_count_le_one.mp hids last.id
      rw [List.count, List.countP_map] at hcount
      refine le_trans (List.countP_mono_left fun row hrow heq => ?_) hcount
      have heq := rowRank_injective key hids hrow hlast (of_decide_eq_true heq)
      exact beq_iff_eq.mpr (congrArg DistanceEstimate.id heq)
    have hleast : Least (rowRank key) limit accumulator.reservoir
        (accumulator.reservoir.filter keep) :=
      least_upTo (fun row hrow => hkeep hrow) hbelow hupTo honce hpos
    refine ⟨rfl, ?_⟩
    rw [compactThreshold_reservoir]
    change Least _ _ _ ((accumulator.reservoir.filter keep).take limit)
    rw [List.take_of_length_le hleast.length.le]
    exact (h.shortlist.shrink le_rfl hleast).least hleast.length.le

/-- The largest of a full heap is up to the endpoint of every row outside, and the
heap is full of endpoints up to it. -/
theorem Scanned.kthUpper (h : Scanned key valid limit parameters upper rows accumulator)
    (hpos : 0 < accumulator.topk) (henough : accumulator.topk ≤ rows.length) :
    ∃ row ∈ rows, upper row = accumulator.smallestUppers.headD Ieee.infinity ∧
      accumulator.topk ≤ rows.countP fun other => key (upper other) ≤ key (upper row) := by
  obtain ⟨hsorted, hlength, rest, hperm, -, hfull⟩ := h.uppers
  have hcount := hperm.length_eq
  rw [List.length_append, List.length_map] at hcount
  have hfull : accumulator.smallestUppers.length = accumulator.topk := by
    rcases hfull with rfl | hfull
    · simp only [List.length_nil] at hcount
      omega
    · exact hfull
  cases hheap : accumulator.smallestUppers with
  | nil =>
      rw [hheap, List.length_nil] at hfull
      omega
  | cons top others =>
      rw [hheap] at hsorted hperm hfull
      obtain ⟨row, hrow, htop⟩ := List.mem_map.mp
        (hperm.subset (List.mem_append_left rest List.mem_cons_self))
      refine ⟨row, hrow, htop, ?_⟩
      have hall : (top :: others).countP (fun upper => key upper ≤ key top) =
          (top :: others).length := by
        refine List.countP_eq_length.mpr fun upper hupper => decide_eq_true ?_
        rcases List.mem_cons.mp hupper with rfl | hupper
        · exact le_rfl
        · exact (List.pairwise_cons.mp hsorted).1 upper hupper
      have hmapped := hperm.countP_eq fun upper => key upper ≤ key top
      rw [List.countP_append, hall, hfull, List.countP_map] at hmapped
      rw [htop]
      exact (Nat.le_add_right _ _).trans_eq hmapped

/-- What a scan of enough rows returns. -/
theorem Scanned.finish (h : Scanned key valid limit parameters upper rows accumulator)
    (hordered : Ieee.OrderedBy key valid) (hscannable : Scannable valid upper rows)
    (huncapped : accumulator.maxCandidates = 0 → limit = rows.length)
    (henough : accumulator.topk ≤ rows.length) :
    ∃ shrunk : FusedIntervalAccumulator E, shrunk.parameters = parameters ∧
      Least (rowRank key) (min limit rows.length) rows shrunk.reservoir ∧
      accumulator.finish = .ok {
        candidates := sortBy rankLess (shrunk.filterByLower
          (accumulator.smallestUppers.headD Ieee.infinity)).reservoir
        kthUpperBound := accumulator.smallestUppers.headD Ieee.infinity
        truncated := 0 < accumulator.maxCandidates &&
          accumulator.maxCandidates < rows.length } := by
  unfold FusedIntervalAccumulator.finish
  rw [h.collects.running, h.seen]
  dsimp only
  rw [if_neg (not_lt.mpr henough)]
  rcases Nat.eq_zero_or_pos accumulator.maxCandidates with hzero | hcap
  · rw [if_neg hzero.not_gt]
    refine ⟨accumulator, h.parameters_eq, h.collects.shortlist.least ?_, rfl⟩
    rw [huncapped hzero]
    exact h.collects.shortlist.length_le
  · obtain ⟨hlimit, -⟩ := h.collects.capped hcap
    rw [hlimit] at hcap ⊢
    rw [if_pos hcap]
    obtain ⟨hparameters, hleast⟩ := h.collects.shrinkShortlist hordered hscannable hcap
    exact ⟨_, hparameters.trans h.parameters_eq, hleast, rfl⟩

theorem filterByLower_portable (hportable : accumulator.avx512 = false) (kthUpper : E) :
    (accumulator.filterByLower kthUpper).reservoir = accumulator.reservoir.filter fun row =>
      Ieee.le (row.lower accumulator.zScore) kthUpper := by
  unfold FusedIntervalAccumulator.filterByLower
  rw [hportable]
  rfl

/-- Too few rows. -/
theorem Scanned.finish_few (h : Scanned key valid limit parameters upper rows accumulator)
    (hfew : rows.length < accumulator.topk) :
    accumulator.finish = .error (.invalidArgument "fewer scanned estimates than topk") := by
  unfold FusedIntervalAccumulator.finish
  rw [h.collects.running, h.seen]
  exact if_pos hfew

end FusedIntervalAccumulator

end

end Recast
