import Recast.Refiner.BuildPlans
import Recast.Foundation.FloatBits
import Mathlib.Data.List.GetD
import Mathlib.Data.List.Perm.Basic

/-!
# Exact distances

The machine order of finite non-negative distances, and what the requests of
readable files contribute: one neighbor for each candidate.
-/

namespace Recast

open Foundation

/-- The place of a finite non-negative number in their order: zero, then by
exponent and mantissa. -/
def floatRank : Float.Model.UnpackedFloat → WithBot (ℤ ×ₗ ℕ)
  | .notANumber => ⊥
  | .infinity _ => ⊥
  | .zero _ => ⊥
  | .finite _ m e _ => ((toLex (e, m) : ℤ ×ₗ ℕ) : WithBot (ℤ ×ₗ ℕ))

namespace Neighbor

/-- `insert_exact` accepts it. -/
def Valid (neighbor : Neighbor) : Prop :=
  neighbor.distance.isFinite = true ∧ ¬neighbor.distance < 0

/-- The pair (distance, ID), in the order of the pairs. -/
def key (neighbor : Neighbor) : WithBot (ℤ ×ₗ ℕ) ×ₗ ℕ :=
  toLex (floatRank neighbor.distance.toModel.unpack, neighbor.id)

end Neighbor

open Float.Model in
/-- A finite number that is not below zero. -/
inductive NonNegative : UnpackedFloat → Prop where
  | zero (s : UnpackedFloat.Sign) : NonNegative (.zero s)
  | positive (m : Nat) (e : Int) (h : 0 < m) : NonNegative (.finite .positive m e h)

theorem Neighbor.Valid.nonNegative {neighbor : Neighbor} (h : neighbor.Valid) :
    NonNegative neighbor.distance.toModel.unpack := by
  obtain ⟨hfinite, hsign⟩ := h
  have hzero : (0 : Float32).toModel.unpack = .zero .positive := rfl
  change neighbor.distance.toModel.unpack.isFinite = true at hfinite
  rw [float32_lt_iff, hzero] at hsign
  generalize neighbor.distance.toModel.unpack = u at hfinite hsign
  cases u with
  | notANumber => exact (Bool.false_ne_true hfinite).elim
  | infinity s => exact (Bool.false_ne_true hfinite).elim
  | zero s => exact .zero s
  | finite s m e h =>
      cases s with
      | positive => exact .positive m e h
      | negative => exact absurd rfl hsign

open Float.Model in
/-- The machine compares such numbers by their rank. -/
theorem NonNegative.lt_iff {u v : UnpackedFloat} (hu : NonNegative u) (hv : NonNegative v) :
    UnpackedFloat.lt u v = true ↔ floatRank u < floatRank v := by
  cases hu with
  | zero s =>
      cases hv with
      | zero s' => exact ⟨fun h => (Bool.false_ne_true h).elim, fun h => absurd h (lt_irrefl _)⟩
      | positive m e h => exact ⟨fun _ => WithBot.bot_lt_coe _, fun _ => rfl⟩
  | positive m e h =>
      cases hv with
      | zero s => exact ⟨fun h => (Bool.false_ne_true h).elim, fun h => absurd h not_lt_bot⟩
      | positive m' e' h' =>
          refine Iff.trans ?_ WithBot.coe_lt_coe.symm
          rw [Prod.Lex.toLex_lt_toLex]
          simp [UnpackedFloat.lt, UnpackedFloat.compare, Ordering.then_eq_lt,
            Std.compare_eq_lt]

open Float.Model in
theorem NonNegative.beq_iff {u v : UnpackedFloat} (hu : NonNegative u) (hv : NonNegative v) :
    UnpackedFloat.beq u v = true ↔ floatRank u = floatRank v := by
  cases hu with
  | zero s =>
      cases hv with
      | zero s' => exact ⟨fun _ => rfl, fun _ => rfl⟩
      | positive m e h =>
          exact ⟨fun h => (Bool.false_ne_true h).elim, fun h => absurd h WithBot.bot_ne_coe⟩
  | positive m e h =>
      cases hv with
      | zero s =>
          exact ⟨fun h => (Bool.false_ne_true h).elim, fun h => absurd h WithBot.coe_ne_bot⟩
      | positive m' e' h' =>
          refine Iff.trans ?_ WithBot.coe_inj.symm
          simp [UnpackedFloat.beq, UnpackedFloat.compare]

/-- The heap compares valid neighbors by the pair (distance, ID). -/
theorem exactPairWorseFirst_comparesBy :
    ComparesBy exactPairWorseFirst Neighbor.key Neighbor.Valid := by
  intro x y hx hy
  have hlt := hx.nonNegative.lt_iff hy.nonNegative
  have hbeq := hx.nonNegative.beq_iff hy.nonNegative
  rw [← float32_lt_iff] at hlt
  rw [← float32_beq_eq] at hbeq
  rw [exactPairWorseFirst, Neighbor.key, Neighbor.key, Prod.Lex.toLex_lt_toLex]
  split
  next hne =>
    have hrank : floatRank x.distance.toModel.unpack ≠ floatRank y.distance.toModel.unpack := by
      rw [Ne, ← hbeq]
      simpa [bne] using hne
    rw [decide_eq_true_eq, hlt]
    simp [hrank]
  next heq =>
    have hrank : floatRank x.distance.toModel.unpack = floatRank y.distance.toModel.unpack := by
      rw [← hbeq]
      simpa [bne] using heq
    simp [hrank]

/-- Equal keys are equal IDs and distances that compare equal. -/
theorem Neighbor.key_eq_iff {x y : Neighbor} (hx : x.Valid) (hy : y.Valid) :
    x.key = y.key ↔ (x.distance == y.distance) = true ∧ x.id = y.id := by
  rw [float32_beq_eq, hx.nonNegative.beq_iff hy.nonNegative, key, key, toLex_inj, Prod.mk.injEq]

/-- The exact result for a candidate: the ID and the distance of the record at
its offset. -/
def RecordLayout.neighborOf (layout : RecordLayout) (distance : Bytes → Float32)
    (files : Nat → Bytes) (candidate : ListCandidate) : Neighbor :=
  let record := layout.paging.slotAt (files candidate.listNo) candidate.offset
  ⟨ofLittleEndian (slice record 0 4), distance (slice record 4 layout.payloadBytes)⟩

/-- `out` lists, in increasing order, the `topk` smallest of the pairs of all neighbors. -/
structure TopPairs (topk : Nat) (neighbors out : List Neighbor) : Prop where
  keys : out.map Neighbor.key =
    ((neighbors.map Neighbor.key).insertionSort (· ≤ ·)).take topk
  members : ∀ neighbor ∈ out, neighbor ∈ neighbors

/-- A smaller distance makes a smaller pair. -/
theorem Neighbor.key_lt {x y : Neighbor} (hx : x.Valid) (hy : y.Valid)
    (h : x.distance < y.distance) : x.key < y.key := by
  rw [float32_lt_iff, hx.nonNegative.lt_iff hy.nonNegative] at h
  exact Prod.Lex.toLex_lt_toLex.mpr (.inl h)

/-- The smallest pairs of neighbors with distinct IDs: as many as there should be,
each ID once, in increasing order. -/
theorem TopPairs.listed {topk : Nat} {neighbors out : List Neighbor}
    (h : TopPairs topk neighbors out) (hvalid : ∀ neighbor ∈ neighbors, neighbor.Valid)
    (hids : (neighbors.map Neighbor.id).Nodup) (hcount : topk ≤ neighbors.length) :
    out.length = topk ∧ (out.map Neighbor.id).Nodup ∧
      out.Pairwise fun x y => exactPairWorseFirst x y = true := by
  have hlength := congrArg List.length h.keys
  rw [List.length_map, List.length_take, List.length_insertionSort, List.length_map,
    min_eq_left hcount] at hlength
  have hdistinct : (neighbors.map Neighbor.key).Nodup := by
    refine List.Nodup.of_map (fun key => (ofLex key).2) ?_
    rwa [List.map_map]
  have hsorted : (out.map Neighbor.key).Pairwise (· < ·) := by
    rw [h.keys]
    have hperm := List.perm_insertionSort (· ≤ ·) (neighbors.map Neighbor.key)
    refine List.Pairwise.sublist (List.take_sublist _ _) ?_
    exact (List.pairwise_insertionSort _ _).imp₂ (fun _ _ hle hne => lt_of_le_of_ne hle hne)
      (hperm.nodup_iff.mpr hdistinct)
  rw [List.pairwise_map] at hsorted
  refine ⟨hlength, List.pairwise_map.mpr (hsorted.imp_of_mem fun hx hy hlt hid => ?_),
    hsorted.imp_of_mem fun hx hy hlt => ?_⟩
  · have hsame := List.inj_on_of_nodup_map hids (h.members _ hx) (h.members _ hy) hid
    exact absurd hlt (hsame ▸ lt_irrefl _)
  · exact (exactPairWorseFirst_comparesBy _ _ (hvalid _ (h.members _ hx))
      (hvalid _ (h.members _ hy))).mpr hlt

/-- Two lists with the same pairs: the same IDs at distances that compare equal. -/
def SamePairs (out out' : List Neighbor) : Prop :=
  List.Forall₂ (fun x y => x.id = y.id ∧ (x.distance == y.distance) = true) out out'

theorem TopPairs.agree {topk : Nat} {neighbors out out' : List Neighbor}
    (h : TopPairs topk neighbors out) (h' : TopPairs topk neighbors out')
    (hvalid : ∀ neighbor ∈ neighbors, neighbor.Valid) : SamePairs out out' := by
  have hkeys := h.keys.trans h'.keys.symm
  have hlength : out.length = out'.length := by
    simpa using congrArg List.length hkeys
  refine List.forall₂_iff_get.mpr ⟨hlength, fun i hi hi' => ?_⟩
  have hx := hvalid _ (h.members _ (List.get_mem out ⟨i, hi⟩))
  have hy := hvalid _ (h'.members _ (List.get_mem out' ⟨i, hi'⟩))
  have hkey : (out.get ⟨i, hi⟩).key = (out'.get ⟨i, hi'⟩).key := by
    have hget := congrArg (fun keys => keys[i]?) hkeys
    simpa [hi, hi'] using hget
  exact ((Neighbor.key_eq_iff hx hy).mp hkey).symm

namespace RefineCall

def neighborAt (call : RefineCall) (files : Nat → Bytes) (candidate : ListCandidate) : Neighbor :=
  call.layout.neighborOf call.distance files candidate

/-- The bytes a request asks for. -/
def readBytes (files : Nat → Bytes) (plan : ReadPlan) : Bytes :=
  slice (files plan.listNo) plan.alignedOffset plan.requestBytes

/-- What an item of a request contributes. -/
def itemNeighbor (call : RefineCall) (bytes : Bytes) (item : CandidateInRequest) : Neighbor :=
  ⟨ofLittleEndian (slice bytes item.recordInBuffer 4),
    call.distance (slice bytes (item.recordInBuffer + 4) call.layout.payloadBytes)⟩

def planNeighbors (call : RefineCall) (files : Nat → Bytes) (plan : ReadPlan) : List Neighbor :=
  plan.candidates.map (call.itemNeighbor (readBytes files plan))

/-- The heap after some neighbors. -/
def push (call : RefineCall) (heap : List Neighbor) (neighbors : List Neighbor) : List Neighbor :=
  neighbors.foldl (boundedPush exactPairWorseFirst call.topk) heap

/-- The plans of a call and the files they read. -/
structure Reads (call : RefineCall) (files : Nat → Bytes) (candidates : List ListCandidate) :
    Prop where
  sorted : call.Sorted
  length : ∀ plan ∈ call.plans, (readBytes files plan).length = plan.requestBytes
  inside : ∀ plan ∈ call.plans, ∀ item ∈ plan.candidates,
    item.recordInBuffer + call.layout.recordStride ≤ plan.requestBytes
  neighbors : ∀ plan ∈ call.plans, ∀ item ∈ plan.candidates, ∃ candidate,
    candidates[item.candidateIndex]? = some candidate ∧
      call.itemNeighbor (readBytes files plan) item = call.neighborAt files candidate
  indices : ((call.plans.flatMap ReadPlan.candidates).map (·.candidateIndex)).Perm
    (List.range candidates.length)

/-- The record of a location lies inside its page. -/
theorem recordInPage_le (layout : RecordLayout) (i : Nat) (candidate : ListCandidate) :
    (layout.location i candidate).recordInPage + layout.recordStride ≤ layout.pageSize :=
  Paging.lane_end_le (@Paging.lane_lt layout.paging candidate.offset)

theorem planRefine_reads {layout : RecordLayout} {nlist : Nat} {options : ListFileRefineOptions}
    {query : List Float32} {dimension : Nat} {candidates : List ListCandidate} {topk : Nat}
    {distanceFunction : ExactDistanceFunction} {call : RefineCall}
    (h : planRefine layout nlist options query dimension candidates topk distanceFunction =
      .ok call) {files : Nat → Bytes}
    (hreadable : ∀ location ∈ layout.locations candidates, layout.Readable files location) :
    call.Reads files candidates := by
  obtain ⟨hplans, hcall⟩ := planRefine_eq_ok h
  obtain ⟨-, hplanned, hindices⟩ := RecordLayout.buildReadPlans_spec hplans
  have hlayout : call.layout = layout := by rw [hcall]
  -- every item of a plan comes from one candidate inside the pages read
  have hbounds : ∀ plan ∈ call.plans, ∀ item ∈ plan.candidates, ∃ first location,
      layout.Planned (layout.locations candidates) plan first ∧
        location ∈ layout.locations candidates ∧ plan.Holds first location ∧
        item = ⟨location.candidateIndex,
          (location.pageNo - first) * layout.pageSize + location.recordInPage⟩ := by
    intro plan hplan item hitem
    obtain ⟨first, hfirst⟩ := hplanned plan hplan
    obtain ⟨location, hmem, hholds, hitem⟩ := hfirst.items item hitem
    exact ⟨first, location, hfirst, hmem, hholds, hitem⟩
  have hinside : ∀ plan ∈ call.plans, ∀ item ∈ plan.candidates,
      item.recordInBuffer + call.layout.recordStride ≤ plan.requestBytes := by
    intro plan hplan item hitem
    obtain ⟨first, location, hfirst, hmem, ⟨-, hlow, hhigh⟩, rfl⟩ := hbounds plan hplan item hitem
    obtain ⟨candidate, -, hlocation⟩ := RecordLayout.mem_locations hmem
    have hrecord := recordInPage_le layout location.candidateIndex candidate
    rw [← hlocation] at hrecord
    have hpages : (location.pageNo - first + 1) * layout.pageSize ≤
        plan.pageCount * layout.pageSize := Nat.mul_le_mul_right _ (by omega)
    rw [Nat.succ_mul] at hpages
    rw [hfirst.requestBytes, hlayout]
    dsimp only
    omega
  refine ⟨planRefine_sorted h, ?_, hinside, ?_, hindices⟩
  · intro plan hplan
    obtain ⟨first, hfirst⟩ := hplanned plan hplan
    exact length_slice_of_le (hfirst.end_le hreadable).1
  · intro plan hplan item hitem
    have hin := hinside plan hplan item hitem
    obtain ⟨first, location, hfirst, hmem, ⟨hlist, hlow, -⟩, rfl⟩ := hbounds plan hplan item hitem
    obtain ⟨candidate, hcandidate, hlocation⟩ := RecordLayout.mem_locations hmem
    refine ⟨candidate, hcandidate, ?_⟩
    have hstride : call.layout.recordStride = 4 + call.layout.payloadBytes := rfl
    have hoffset : plan.alignedOffset + ((location.pageNo - first) * layout.pageSize +
        location.recordInPage) = layout.paging.slotOffset candidate.offset := by
      have hpage : location.pageNo = candidate.offset / layout.recordsPerPage := by rw [hlocation]; rfl
      have hlane : location.recordInPage =
          candidate.offset % layout.recordsPerPage * layout.recordStride := by rw [hlocation]; rfl
      have hsplit : first * layout.pageSize + (location.pageNo - first) * layout.pageSize =
          location.pageNo * layout.pageSize := by
        rw [← Nat.add_mul, Nat.add_sub_cancel' hlow]
      rw [hfirst.alignedOffset, ← Nat.add_assoc, hsplit, hlane, hpage]
      rfl
    have hfile : plan.listNo = candidate.listNo := by rw [← hlist, hlocation]; rfl
    dsimp only at hin
    rw [hlayout] at hin hstride
    generalize (location.pageNo - first) * layout.pageSize + location.recordInPage = inBuffer
      at hin hoffset ⊢
    have hid : 0 + 4 ≤ layout.paging.width := by
      change 0 + 4 ≤ layout.recordStride
      omega
    have hpayload : 4 + layout.payloadBytes ≤ layout.paging.width := hstride.ge
    simp only [itemNeighbor, neighborAt, RecordLayout.neighborOf, readBytes, Paging.slotAt, hlayout]
    rw [slice_slice _ (by omega), slice_slice _ (by omega), ← Nat.add_assoc, hoffset, hfile,
      slice_slice _ hid, slice_slice _ hpayload]
    rfl

/-- Planning over readable files returns, with the same plans whatever the options. -/
theorem planRefine_readable {layout : RecordLayout} {nlist : Nat} (query : List Float32)
    {dimension : Nat} {candidates : List ListCandidate} {topk : Nat}
    (distanceFunction : ExactDistanceFunction) {files : Nat → Bytes}
    (hdimension : dimension ≠ 0) (htopk : topk ≠ 0) (hcount : topk ≤ candidates.length)
    (hlists : ∀ candidate ∈ candidates, candidate.listNo < nlist)
    (hreadable : ∀ location ∈ layout.locations candidates, layout.Readable files location) :
    ∃ plans, ∀ options, planRefine layout nlist options query dimension candidates topk
        distanceFunction = .ok ⟨layout, options, topk, plans, distinctLists plans,
          fun payload => distanceFunction query payload dimension⟩ := by
  obtain ⟨plans, hplans⟩ := RecordLayout.buildReadPlans_readable hreadable
  refine ⟨plans, fun options => ?_⟩
  rw [planRefine, if_neg (by omega), if_neg, hplans, ok_bind]
  rintro ⟨candidate, hcandidate, hle⟩
  exact Nat.not_lt.mpr hle (hlists candidate hcandidate)

variable {call : RefineCall} {files : Nat → Bytes} {candidates : List ListCandidate}

theorem push_append (call : RefineCall) (heap first second : List Neighbor) :
    call.push heap (first ++ second) = call.push (call.push heap first) second :=
  List.foldl_append

theorem insertExact_valid {neighbor : Neighbor} (h : neighbor.Valid) (topk : Nat)
    (heap : List Neighbor) : insertExact topk heap neighbor.id neighbor.distance =
      .ok (boundedPush exactPairWorseFirst topk heap neighbor) := by
  obtain ⟨hfinite, hsign⟩ := h
  refine if_neg fun hbad => hbad.elim (fun hnot => ?_) hsign
  rw [hfinite] at hnot
  exact Bool.noConfusion hnot

/-- Processing a request whose records are inside it pushes all its neighbors. -/
theorem processPlan_eq {plan : ReadPlan} {bytes : Bytes} {items : List CandidateInRequest}
    (hinside : ∀ item ∈ items, item.recordInBuffer + call.layout.recordStride ≤ plan.requestBytes)
    (hvalid : ∀ item ∈ items, (call.itemNeighbor bytes item).Valid) (heap : List Neighbor) :
    items.foldlM (call.processCandidate bytes plan) heap =
      .ok (call.push heap (items.map (call.itemNeighbor bytes))) := by
  induction items generalizing heap with
  | nil => rfl
  | cons item items ih =>
      have hin := hinside item List.mem_cons_self
      have hstride : call.layout.recordStride = 4 + call.layout.payloadBytes := rfl
      have hinsert := insertExact_valid (hvalid item List.mem_cons_self) call.topk heap
      have hitem : call.processCandidate bytes plan heap item =
          .ok (boundedPush exactPairWorseFirst call.topk heap (call.itemNeighbor bytes item)) := by
        rw [processCandidate, if_neg (by omega), ← hinsert, itemNeighbor]
      rw [List.foldlM_cons, hitem, ok_bind,
        ih (fun i hi => hinside i (List.mem_cons_of_mem _ hi))
          (fun i hi => hvalid i (List.mem_cons_of_mem _ hi))]
      rfl

theorem Reads.mem_neighbors (h : call.Reads files candidates) {plan : ReadPlan}
    (hplan : plan ∈ call.plans) {neighbor : Neighbor}
    (hneighbor : neighbor ∈ call.planNeighbors files plan) :
    ∃ candidate ∈ candidates, neighbor = call.neighborAt files candidate := by
  obtain ⟨item, hitem, rfl⟩ := List.mem_map.mp hneighbor
  obtain ⟨candidate, hcandidate, hneighbor⟩ := h.neighbors plan hplan item hitem
  exact ⟨candidate, List.mem_of_getElem? hcandidate, hneighbor⟩

/-- Reading a plan of readable files pushes its neighbors. -/
theorem Reads.processPlan (h : call.Reads files candidates)
    (hvalid : ∀ candidate ∈ candidates, (call.neighborAt files candidate).Valid)
    {plan : ReadPlan} (hplan : plan ∈ call.plans) (heap : List Neighbor) :
    call.processPlan (readBytes files plan) plan heap =
      .ok (call.push heap (call.planNeighbors files plan)) := by
  refine processPlan_eq (h.inside plan hplan) (fun item hitem => ?_) heap
  obtain ⟨candidate, hmem, heq⟩ := h.mem_neighbors hplan (List.mem_map_of_mem hitem)
  exact heq ▸ hvalid candidate hmem

/-- All plans together contribute one neighbor for each candidate. -/
theorem Reads.neighbors_perm (h : call.Reads files candidates) :
    (call.plans.flatMap (call.planNeighbors files)).Perm
      (candidates.map (call.neighborAt files)) := by
  have hitems : ∀ plans : List ReadPlan, (∀ plan ∈ plans, plan ∈ call.plans) →
      (plans.flatMap (call.planNeighbors files)).map some =
        ((plans.flatMap ReadPlan.candidates).map (·.candidateIndex)).map
          (fun i => (candidates[i]?).map (call.neighborAt files)) := by
    intro plans hplans
    induction plans with
    | nil => rfl
    | cons plan plans ih =>
        rw [List.flatMap_cons, List.flatMap_cons, List.map_append, List.map_append,
          List.map_append, ih fun p hp => hplans p (List.mem_cons_of_mem _ hp)]
        congr 1
        rw [planNeighbors, List.map_map, List.map_map]
        refine List.map_congr_left fun item hitem => ?_
        obtain ⟨candidate, hcandidate, hneighbor⟩ :=
          h.neighbors plan (hplans plan List.mem_cons_self) item hitem
        simp [hcandidate, hneighbor]
  have hrange : (List.range candidates.length).map
      (fun i => (candidates[i]?).map (call.neighborAt files)) =
        (candidates.map (call.neighborAt files)).map some := by
    refine List.ext_getElem (by simp) fun i hi hi' => ?_
    have hlt : i < candidates.length := by simpa using hi'
    simp [hlt]
  have hperm := h.indices.map fun i => (candidates[i]?).map (call.neighborAt files)
  rw [← hitems call.plans (fun _ hplan => hplan), hrange] at hperm
  exact (List.map_perm_map_iff (Option.some_injective _)).mp hperm

/-- Pushing the neighbors of all plans, in any order, leaves the smallest pairs. -/
theorem Reads.topPairs (h : call.Reads files candidates)
    (hvalid : ∀ candidate ∈ candidates, (call.neighborAt files candidate).Valid)
    {neighbors : List Neighbor}
    (hperm : neighbors.Perm (call.plans.flatMap (call.planNeighbors files))) :
    TopPairs call.topk (candidates.map (call.neighborAt files))
      (finishTopk (call.push [] neighbors)) := by
  have hall := hperm.trans h.neighbors_perm
  have hsmallest := (Smallest.nil Neighbor.key call.topk).foldl exactPairWorseFirst_comparesBy
    (by simp) (fun neighbor hneighbor => by
      obtain ⟨candidate, hcandidate, rfl⟩ := List.mem_map.mp (hall.subset hneighbor)
      exact hvalid candidate hcandidate)
  rw [List.nil_append] at hsmallest
  refine ⟨?_, fun neighbor hneighbor => ?_⟩
  · refine hsmallest.reverse_keys.trans ?_
    congr 1
    refine List.Perm.eq_of_pairwise' (List.pairwise_insertionSort _ _)
      (List.pairwise_insertionSort _ _) ?_
    exact (List.perm_insertionSort _ _).trans
      ((hall.map _).trans (List.perm_insertionSort _ _).symm)
  · exact hall.subset (hsmallest.mem (List.mem_reverse.mp hneighbor))

/-- Reading some plans one after the other pushes their neighbors. -/
theorem Reads.refineBlocking (h : call.Reads files candidates)
    (hvalid : ∀ candidate ∈ candidates, (call.neighborAt files candidate).Valid)
    {opened : List Nat} {plans : List ReadPlan} (hplans : ∀ plan ∈ plans, plan ∈ call.plans)
    (hopened : ∀ plan ∈ plans, plan.listNo ∈ opened) (heap : List Neighbor) :
    call.refineBlocking files opened plans heap =
      .ok (call.push heap (plans.flatMap (call.planNeighbors files))) := by
  unfold RefineCall.refineBlocking
  induction plans generalizing heap with
  | nil => rfl
  | cons plan plans ih =>
      have hplan := hplans plan List.mem_cons_self
      have hread : call.refinePlan files opened heap plan =
          .ok (call.push heap (call.planNeighbors files plan)) := by
        rw [refinePlan, descriptorFor, if_pos (hopened plan List.mem_cons_self), ok_bind]
        exact (if_neg (not_not.mpr (h.length plan hplan))).trans (h.processPlan hvalid hplan heap)
      rw [List.foldlM_cons, hread, ok_bind,
        ih (fun p hp => hplans p (List.mem_cons_of_mem _ hp))
          (fun p hp => hopened p (List.mem_cons_of_mem _ hp)),
        List.flatMap_cons, push_append]

/-- The windows from `listBegin` on read the plans that are left. -/
theorem Reads.refineWindows (h : call.Reads files candidates)
    (hvalid : ∀ candidate ∈ candidates, (call.neighborAt files candidate).Valid)
    {rounds listBegin : Nat} (hrounds : call.lists.length ≤ listBegin + rounds)
    (hbegin : listBegin ≤ call.lists.length) (heap : List Neighbor) :
    call.refineWindows files rounds listBegin (call.planCount listBegin) heap =
      .ok (call.push heap ((call.plans.drop (call.planCount listBegin)).flatMap
        (call.planNeighbors files))) := by
  have hdone : call.plans.drop (call.planCount call.lists.length) = [] := by
    rw [h.sorted.planCount_length, List.drop_length]
  induction rounds generalizing listBegin heap with
  | zero =>
      have hlast : listBegin = call.lists.length := by omega
      rw [hlast, hdone]
      rfl
  | succ rounds ih =>
      rw [RefineCall.refineWindows]
      split
      next hinside =>
        have hend := h.sorted.planEnd_eq hinside
        have hdepth := call.options.queueDepth_pos
        have hopen := call.options.queueDepth_le
        have hlistEnd : call.listEnd listBegin = min call.lists.length
          (listBegin + call.options.maxOpenFiles) := rfl
        have hle : call.planCount listBegin ≤ call.planCount (call.listEnd listBegin) :=
          hend ▸ Nat.le_add_right _ _
        have hopened : ∀ plan ∈ slice call.plans (call.planCount listBegin)
            (call.planCount (call.listEnd listBegin) - call.planCount listBegin),
              plan.listNo ∈ call.window listBegin := by
          intro plan hplan
          obtain ⟨i, hi⟩ := List.mem_iff_getElem?.mp hplan
          rw [getElem?_slice] at hi
          split at hi
          next hlt => exact h.sorted.mem_window (Nat.le_add_right _ _) (by omega) hi
          next => simp at hi
        have hplans : ∀ plan ∈ slice call.plans (call.planCount listBegin)
            (call.planCount (call.listEnd listBegin) - call.planCount listBegin),
              plan ∈ call.plans :=
          fun plan hplan => List.mem_of_mem_drop (List.mem_of_mem_take hplan)
        have hread := h.refineBlocking hvalid hplans hopened heap
        have hsplit : slice call.plans (call.planCount listBegin)
            (call.planCount (call.listEnd listBegin) - call.planCount listBegin) ++
              call.plans.drop (call.planCount (call.listEnd listBegin)) =
            call.plans.drop (call.planCount listBegin) := by
          have hdrop : call.plans.drop (call.planCount (call.listEnd listBegin)) =
              (call.plans.drop (call.planCount listBegin)).drop
                (call.planCount (call.listEnd listBegin) - call.planCount listBegin) := by
            rw [List.drop_drop, Nat.add_sub_cancel' hle]
          rw [hdrop]
          exact List.take_append_drop _ _
        dsimp only
        rw [hend, hread, ok_bind, ih (by omega) (by omega), ← push_append, ← List.flatMap_append,
          hsplit]
      next hinside =>
        have hlast : listBegin = call.lists.length := by omega
        rw [hlast, hdone]
        rfl

/-- `refine` with one request at a time. -/
theorem Reads.refine (h : call.Reads files candidates)
    (hvalid : ∀ candidate ∈ candidates, (call.neighborAt files candidate).Valid) :
    call.refine files =
      .ok (finishTopk (call.push [] (call.plans.flatMap (call.planNeighbors files)))) := by
  have hwindows := h.refineWindows hvalid (Nat.le_add_left call.lists.length 0) (Nat.zero_le _) []
  rw [planCount_zero, List.drop_zero] at hwindows
  rw [RefineCall.refine, hwindows, ok_bind]

end RefineCall

end Recast
