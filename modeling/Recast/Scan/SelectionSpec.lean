import Recast.Scan.SelectionLaws

/-!
# What a selection is

The selection of a list of rows, by two sorts of the whole list. The collector
returns it for every order of the rows, whatever batches they came in.
-/

namespace Recast

open Foundation

section

variable {E K : Type} [Ieee E] [LinearOrder K] {key : E → K} {valid : E → Prop}

/-- The selection of `topk` neighbours among rows: `kth_upper_bound` is the
`topk`-th smallest upper endpoint of all rows; of the rows of the smallest ranks
those stay whose lower endpoints are up to it. -/
def intervalSelection (topk : ℕ) (zScore : E) (maxCandidates : ℕ)
    (rows : List (DistanceEstimate E)) : Except Error (SelectionResult E) :=
  if rows.length < topk then .error (.invalidArgument "fewer scanned estimates than topk")
  else
    let kthUpper := (sortBy Ieee.lt (rows.map fun row => row.upper zScore)).getD (topk - 1)
      Ieee.infinity
    let ranked := sortBy FusedIntervalAccumulator.rankLess rows
    let shortlist := if maxCandidates = 0 then ranked else ranked.take maxCandidates
    .ok {
      candidates := shortlist.filter fun row => Ieee.le (row.lower zScore) kthUpper
      kthUpperBound := kthUpper
      truncated := 0 < maxCandidates && maxCandidates < rows.length }

/-- The same candidates in the same order, and one bound; it may be either zero. -/
def SameSelection : Except Error (SelectionResult E) → Except Error (SelectionResult E) → Prop
  | .ok x, .ok y => x.candidates = y.candidates ∧ x.truncated = y.truncated ∧
      Ieee.beq x.kthUpperBound y.kthUpperBound = true
  | .error error, .error error' => error = error'
  | _, _ => False

theorem DistanceEstimate.upper_valid (hnumbers : Ieee.Numbers key valid) {row : DistanceEstimate E}
    (hrow : valid row.estimatedDistance) (zScore : E) : valid (row.upper zScore) := by
  unfold DistanceEstimate.upper
  split
  · exact hrow
  · split
    · exact hnumbers.infinity
    · dsimp only
      split
      next => exact hnumbers.infinity
      next hnumber => exact hnumbers.of_isNaN (Bool.eq_false_iff.mpr hnumber)

theorem DistanceEstimate.lower_valid (hnumbers : Ieee.Numbers key valid) {row : DistanceEstimate E}
    (hrow : valid row.estimatedDistance) (zScore : E) : valid (row.lower zScore) := by
  unfold DistanceEstimate.lower
  split
  · exact hrow
  · split
    · exact hnumbers.negInfinity
    · dsimp only
      split
      next => exact hnumbers.negInfinity
      next hnumber => exact hnumbers.of_isNaN (Bool.eq_false_iff.mpr hnumber)

namespace FusedIntervalAccumulator

variable {rows rows' : List (DistanceEstimate E)} {topk maxCandidates limit : ℕ} {zScore : E}
  {accumulator : FusedIntervalAccumulator E}

/-- The `topk`-th smallest upper endpoint has one key in every order of the rows. -/
theorem kthUpper_key (hnumbers : Ieee.Numbers key valid) (hpos : 0 < topk)
    (henough : topk ≤ rows.length) (hperm : rows'.Perm rows)
    (hvalid : ∀ row ∈ rows, valid row.estimatedDistance)
    {heap : List E} (hheap : Smallest key topk (rows.map fun row => row.upper zScore) heap) :
    valid (heap.headD Ieee.infinity) ∧
      valid ((sortBy Ieee.lt (rows'.map fun row => row.upper zScore)).getD (topk - 1)
        Ieee.infinity) ∧
      key (heap.headD Ieee.infinity) =
        key ((sortBy Ieee.lt (rows'.map fun row => row.upper zScore)).getD (topk - 1)
          Ieee.infinity) := by
  have huppers : ∀ upper ∈ rows.map (fun row => row.upper zScore), valid upper := by
    rw [List.forall_mem_map]
    exact fun row hrow => row.upper_valid hnumbers (hvalid row hrow) zScore
  have hmapped := hperm.map fun row => row.upper zScore
  have huppers' : ∀ upper ∈ rows'.map (fun row => row.upper zScore), valid upper :=
    fun upper hupper => huppers upper (hmapped.subset hupper)
  have hplace : topk - 1 < (sortBy Ieee.lt (rows'.map fun row => row.upper zScore)).length := by
    rw [(sortBy_perm Ieee.lt _).length_eq, List.length_map, hperm.length_eq]
    omega
  obtain ⟨top, rest, htop, hkey⟩ := hheap.head_key hpos (by rwa [List.length_map])
  have hsorted := @map_sortBy E K _ _ key valid (lt_comparesBy hnumbers.toOrderedBy) _ huppers'
  have hkeys : ((rows'.map fun row => row.upper zScore).map key).insertionSort (· ≤ ·) =
      ((rows.map fun row => row.upper zScore).map key).insertionSort (· ≤ ·) :=
    List.Perm.eq_of_pairwise' (List.pairwise_insertionSort _ _) (List.pairwise_insertionSort _ _)
      ((List.perm_insertionSort _ _).trans
        ((hmapped.map key).trans (List.perm_insertionSort _ _).symm))
  rw [← hkeys, ← hsorted, List.getElem?_map, List.getElem?_eq_getElem hplace, Option.map_some,
    Option.some_inj] at hkey
  have hget : (sortBy Ieee.lt (rows'.map fun row => row.upper zScore)).getD (topk - 1)
      Ieee.infinity = (sortBy Ieee.lt (rows'.map fun row => row.upper zScore))[topk - 1] := by
    rw [List.getD_eq_getElem?_getD, List.getElem?_eq_getElem hplace, Option.getD_some]
  rw [hget, htop, List.headD_cons]
  refine ⟨huppers top (hheap.mem (htop ▸ List.mem_cons_self)), huppers' _ ?_, hkey.symm⟩
  exact (sortBy_perm Ieee.lt _).subset (List.getElem_mem hplace)

/-- The portable collector returns the selection of the rows. -/
theorem Scanned.finish_eq (hnumbers : Ieee.Numbers key valid)
    (h : Scanned key valid limit (false, topk, zScore, maxCandidates)
      (fun row => row.upper zScore) rows accumulator) (hpos : 0 < topk)
    (hlimit : limit = if maxCandidates = 0 then rows.length else maxCandidates)
    (hscannable : Scannable valid (fun row => row.upper zScore) rows) (hperm : rows'.Perm rows) :
    SameSelection accumulator.finish (intervalSelection topk zScore maxCandidates rows') := by
  have hparameters := h.parameters_eq
  simp only [parameters, Prod.mk.injEq] at hparameters
  obtain ⟨-, htopk, -, hcap⟩ := hparameters
  rw [intervalSelection, hperm.length_eq]
  by_cases hfew : rows.length < topk
  · rw [h.finish_few (htopk ▸ hfew), if_pos hfew]
    rfl
  rw [if_neg hfew]
  rw [not_lt] at hfew
  have huppers := h.uppers
  rw [htopk] at huppers
  obtain ⟨hheapValid, hsortValid, hkth⟩ := kthUpper_key hnumbers hpos hfew hperm
    hscannable.estimates huppers
  obtain ⟨shrunk, hshrunk, hleast, hfinish⟩ := h.finish hnumbers.toOrderedBy hscannable
    (fun hzero => by rw [hlimit, if_pos (hcap ▸ hzero)]) (htopk ▸ hfew)
  simp only [parameters, Prod.mk.injEq] at hshrunk
  obtain ⟨hportable, -, hz, -⟩ := hshrunk
  have hrank : ComparesBy rankLess (rowRank key) fun row : DistanceEstimate E =>
    valid row.estimatedDistance := rankLess_compares hnumbers.toOrderedBy
  have hdistinct : ∀ x ∈ rows, ∀ y ∈ rows, rowRank key x = rowRank key y → x = y :=
    fun x hx y hy => rowRank_injective key hscannable.ids hx hy
  have hsort : sortBy rankLess rows' = sortBy rankLess rows :=
    (sortBy_eq_of_perm hrank hperm.symm hscannable.estimates hdistinct).symm
  -- the shortlist of the specification is the front of the sorted rows
  have hfront : (if maxCandidates = 0 then sortBy rankLess rows'
      else (sortBy rankLess rows').take maxCandidates) = (sortBy rankLess rows).take limit := by
    rw [hsort, hlimit]
    split
    · rw [List.take_of_length_le (sortBy_perm rankLess rows).length_eq.le]
    · rfl
  have hkept : shrunk.reservoir.Perm ((sortBy rankLess rows).take limit) :=
    hleast.perm (List.Nodup.of_map _ hscannable.ids) (least_take hrank hscannable.estimates
      (List.Nodup.of_map _ hscannable.ids) hdistinct limit)
  have hmem : ∀ row ∈ (sortBy rankLess rows).take limit, row ∈ rows := fun row hrow =>
    (sortBy_perm rankLess rows).subset (List.mem_of_mem_take hrow)
  have hle : ∀ row ∈ rows, Ieee.le (row.lower zScore) (accumulator.smallestUppers.headD
      Ieee.infinity) = Ieee.le (row.lower zScore) ((sortBy Ieee.lt (rows'.map fun row =>
        row.upper zScore)).getD (topk - 1) Ieee.infinity) := by
    intro row hrow
    have hlower := row.lower_valid hnumbers (hscannable.estimates row hrow) zScore
    rw [Bool.eq_iff_iff, hnumbers.le_iff hlower hheapValid, hnumbers.le_iff hlower hsortValid, hkth]
  rw [hfinish]
  dsimp only
  rw [hfront]
  refine ⟨?_, by rw [hcap], (hnumbers.beq_iff hheapValid hsortValid).mpr hkth⟩
  dsimp only
  rw [filterByLower_portable hportable, hz]
  refine sortBy_of_perm_sorted hrank ?_ (fun row hrow => ?_) ?_ fun x hx y hy => ?_
  · refine (hkept.filter _).trans (List.Perm.of_eq (List.filter_congr fun row hrow => ?_))
    exact hle row (hmem row hrow)
  · exact hscannable.estimates row (hmem row (hkept.subset (List.mem_of_mem_filter hrow)))
  · exact ((sortBy_sorted hrank hscannable.estimates).sublist (List.take_sublist _ _)).filter _
  · exact hdistinct x (hmem x (hkept.subset (List.mem_of_mem_filter hx))) y
      (hmem y (hkept.subset (List.mem_of_mem_filter hy)))

end FusedIntervalAccumulator

end

end Recast
