import Recast.Scan.Estimate
import Recast.Uneven.Tables
import Mathlib.Analysis.SpecialFunctions.Log.Base
import Mathlib.Analysis.SpecialFunctions.Pow.Real

/-!
# The estimate is the metric of the decoded vector

Over the reals, with Faiss's transforms as the matrix maps they are documented
to be, the scan estimate of a row and the metric between the query and the
decoded vector of the row are the same number.
-/

namespace Recast

open Foundation Finset

/-- Exact arithmetic. -/
noncomputable def exactNumerics : Numerics ℝ ℝ where
  sqrt := Real.sqrt
  kMinNorm := 1 / ((10 : ℕ) : ℝ) ^ 12
  isFinite := fun _ => true
  widen := id
  log2 := Real.logb ((2 : ℕ) : ℝ)

/-- The inner product over the coordinates of the first vector. -/
noncomputable def exactDot (u v : List ℝ) : ℝ := ∑ i ∈ range u.length, u.getD i 0 * v.getD i 0

/-- Entry `(i, j)` of a row-major matrix. -/
def LinearTransform.entry (transform : LinearTransform ℝ) (i j : ℕ) : ℝ :=
  transform.A.getD (i * transform.dIn + j) 0

/-- What Faiss computes, over the reals: norms, inner products, `A x + b` and
`Aᵀ (y - b)`. -/
structure FaissExact (faiss : Faiss ℝ) : Prop where
  hnorm : ∀ v, faiss.normL2Sqr v = exactDot v v
  hinner : ∀ u v, faiss.innerProduct u v = exactDot u v
  happly : ∀ transform x, faiss.apply transform x =
    (List.range transform.dOut).map fun i =>
      (∑ j ∈ range transform.dIn, transform.entry i j * x.getD j 0) + transform.b.getD i 0
  htranspose : ∀ transform y, faiss.transformTranspose transform y =
    (List.range transform.dIn).map fun j =>
      ∑ i ∈ range transform.dOut, transform.entry i j * (y.getD i 0 - transform.b.getD i 0)

theorem getD_map_range (f : ℕ → ℝ) {n i : ℕ} (h : i < n) : ((List.range n).map f).getD i 0 = f i := by
  rw [List.getD_eq_getElem?_getD, List.getElem?_map, List.getElem?_range h]
  rfl

theorem getD_map_mul (v : List ℝ) (c : ℝ) (i : ℕ) : (v.map (· * c)).getD i 0 = v.getD i 0 * c := by
  rw [List.getD_eq_getElem?_getD, List.getD_eq_getElem?_getD, List.getElem?_map]
  cases v[i]? with
  | none => simp
  | some x => rfl

theorem exactDot_mul_right (u v : List ℝ) (c : ℝ) :
    exactDot u (v.map (· * c)) = exactDot u v * c := by
  rw [exactDot, exactDot, sum_mul]
  refine sum_congr rfl fun i _ => ?_
  rw [getD_map_mul, mul_assoc]

theorem getD_zipWith {u v : List ℝ} (f : ℝ → ℝ → ℝ) {i : ℕ} (hu : i < u.length)
    (hv : i < v.length) : (u.zipWith f v).getD i 0 = f (u.getD i 0) (v.getD i 0) := by
  simp [List.getD_eq_getElem?_getD, hu, hv]

theorem exactDot_add_right {u v w : List ℝ} (hv : u.length = v.length) (hw : u.length = w.length) :
    exactDot u (v.zipWith (· + ·) w) = exactDot u v + exactDot u w := by
  rw [exactDot, exactDot, exactDot, ← sum_add_distrib]
  refine sum_congr rfl fun i hi => ?_
  have hi' := mem_range.mp hi
  rw [getD_zipWith _ (by omega) (by omega)]
  ring

theorem exactDot_zeros (u : List ℝ) (n : ℕ) : exactDot u (List.replicate n 0) = 0 := by
  refine sum_eq_zero fun i _ => ?_
  have hzero : (List.replicate n (0 : ℝ)).getD i 0 = 0 := by
    rw [List.getD_eq_getElem?_getD, List.getElem?_replicate]
    split <;> rfl
  rw [hzero, mul_zero]

/-- Removing the mean that was added. -/
theorem center_add {v mean : List ℝ} (h : v.length = mean.length) :
    center mean (v.zipWith (· + ·) mean) = v := by
  refine List.ext_getElem (by simp [center, h]) fun i hi hi' => ?_
  simp [center]

section Learned

variable {faiss : Faiss ℝ} {quantizer : RecastQuantizer ℝ ℝ}

theorem bias_zero {transform : LinearTransform ℝ} (hbias : ∀ value ∈ transform.b, value = 0)
    (i : ℕ) : transform.b.getD i 0 = 0 := by
  rw [List.getD_eq_getElem?_getD]
  cases h : transform.b[i]? with
  | none => rfl
  | some value => exact hbias value (List.mem_of_getElem? h)

/-- The inverse transform is the adjoint of the transform. -/
theorem exactDot_transform (hexact : FaissExact faiss)
    (hlearned : quantizer.Learned exactNumerics faiss) {u y : List ℝ}
    (hu : u.length = quantizer.config.dimension) :
    exactDot (quantizer.transform faiss u) y = exactDot u (quantizer.inverseTransform faiss y) := by
  unfold RecastQuantizer.transform RecastQuantizer.inverseTransform
  cases hrotation : quantizer.rotation with
  | none => rfl
  | some rotation =>
      obtain ⟨hdIn, hdOut, -, -, -, hbias⟩ := hlearned.hrotation rotation hrotation
      simp only [hexact.happly, hexact.htranspose, exactDot, List.length_map, List.length_range,
        hdIn, hdOut, hu]
      have hleft (i : ℕ) (hi : i ∈ range quantizer.config.dimension) :
          ((List.range quantizer.config.dimension).map fun i =>
            (∑ j ∈ range quantizer.config.dimension, rotation.entry i j * u.getD j 0) +
              rotation.b.getD i 0).getD i 0 * y.getD i 0 =
          ∑ j ∈ range quantizer.config.dimension, u.getD j 0 * (rotation.entry i j * y.getD i 0) := by
        rw [getD_map_range _ (mem_range.mp hi), bias_zero hbias, add_zero, sum_mul]
        exact sum_congr rfl fun j _ => by ring
      have hright (j : ℕ) (hj : j ∈ range quantizer.config.dimension) :
          u.getD j 0 * ((List.range quantizer.config.dimension).map fun j =>
            ∑ i ∈ range quantizer.config.dimension,
              rotation.entry i j * (y.getD i 0 - rotation.b.getD i 0)).getD j 0 =
          ∑ i ∈ range quantizer.config.dimension, u.getD j 0 * (rotation.entry i j * y.getD i 0) := by
        rw [getD_map_range _ (mem_range.mp hj), mul_sum]
        exact sum_congr rfl fun i _ => by rw [bias_zero hbias, sub_zero]
      rw [sum_congr rfl hleft, sum_congr rfl hright, sum_comm]

theorem length_inverseTransform (hexact : FaissExact faiss)
    (hlearned : quantizer.Learned exactNumerics faiss) {y : List ℝ}
    (hy : y.length = quantizer.config.dimension) :
    (quantizer.inverseTransform faiss y).length = quantizer.config.dimension := by
  unfold RecastQuantizer.inverseTransform
  cases hrotation : quantizer.rotation with
  | none => exact hy
  | some rotation =>
      simp only [hexact.htranspose, List.length_map, List.length_range]
      exact (hlearned.hrotation rotation hrotation).hdIn

theorem length_scatter (row : List ℝ) (layout : Bucket) (values : List ℝ) :
    (scatter row layout values).length = row.length := by
  unfold scatter
  generalize layout.dimensions.zip values = pairs
  induction pairs generalizing row with
  | nil => rfl
  | cons pair pairs ih => rw [List.foldl_cons, ih, List.length_set]

/-- A decoded direction has the dimension of the quantizer. -/
theorem length_decode (hfaiss : FaissShapes faiss)
    (hlearned : quantizer.Learned exactNumerics faiss) (code : List UInt8) :
    (quantizer.direction.decode faiss code).length = quantizer.config.dimension := by
  have hformed := hlearned.hdirection
  cases hdirection : quantizer.direction with
  | uniform pq =>
      rw [hdirection] at hformed
      rw [DirectionQuantizer.decode, hfaiss.hdecode, hformed.2.hd]
  | uneven uneven =>
      rw [hdirection] at hformed
      rw [DirectionQuantizer.decode, UnevenProductQuantizer.decode, ← hformed.2.1]
      have hfold (buckets : List (CodedBucket ℝ)) (row : List ℝ) :
          (buckets.foldl (fun row bucket => scatter row bucket.layout (faiss.decode bucket.pq
            (slice code bucket.layout.codeOffset bucket.layout.bucketCodeSize))) row).length =
            row.length := by
        induction buckets generalizing row with
        | nil => rfl
        | cons bucket buckets ih => rw [List.foldl_cons, ih, length_scatter]
      rw [hfold, List.length_replicate]

/-- Without centering the mean is zero. -/
theorem exactDot_mean_eq_zero (hlearned : quantizer.Learned exactNumerics faiss)
    (hcentering : quantizer.config.centering = .none) (u : List ℝ) :
    exactDot u quantizer.mean = 0 := by
  rw [hlearned.hcentering hcentering, exactDot_zeros]

/-- Cosine quantizers are not centered: the constructor refuses them. -/
theorem centering_of_cosine (hlearned : quantizer.Learned exactNumerics faiss)
    (hmetric : quantizer.config.metric = .cosine) : quantizer.config.centering = .none := by
  have hcheck := hlearned.hcheck
  simp only [QuantizerConfig.check, guard_eq_ok] at hcheck
  by_contra hcentering
  exact hcheck.2.2.1 ⟨hmetric, hcentering⟩

/-- The vector `decode` returns, around the mean. -/
theorem decode_eq (hfaiss : FaissShapes faiss) (hexact : FaissExact faiss)
    (hlearned : quantizer.Learned exactNumerics faiss) (code : List UInt8) (metadata : Metadata) :
    ∃ centered,
      quantizer.decode faiss code metadata = centered.zipWith (· + ·) quantizer.mean ∧
      centered.length = quantizer.config.dimension ∧
      ∀ u : List ℝ, u.length = quantizer.config.dimension →
        exactDot u centered =
          exactDot (quantizer.transform faiss u) (quantizer.direction.decode faiss code) *
            (if quantizer.config.metric = .cosine then
              (quantizer.decodeMetadata metadata).norm * (quantizer.decodeMetadata metadata).scale
            else (quantizer.decodeMetadata metadata).scale) := by
  refine ⟨_, rfl, ?_, fun u hu => ?_⟩
  · refine length_inverseTransform hexact hlearned ?_
    rw [List.length_map, length_decode hfaiss hlearned]
  · rw [← exactDot_transform hexact hlearned hu, exactDot_mul_right]

/-- The accumulated table values are the inner product the codec promises. -/
theorem accumulate_eq {layout : CodeLayout} {packedCodes : Bytes} {row : ℕ} {code : Code layout}
    (hreads : ∀ m < layout.subquantizers,
      layout.getPackedElement packedCodes row m = code.element m) (lut : List ℝ) :
    accumulateExactPq4Lut layout packedCodes lut row =
      ∑ m ∈ range layout.subquantizers, lut.getD (16 * m + (code.element m).toNat) 0 := by
  have hfold (f : ℕ → ℝ) (n : ℕ) :
      (List.range n).foldl (fun sum m => sum + f m) 0 = ∑ m ∈ range n, f m := by
    induction n with
    | zero => rfl
    | succ n ih => rw [List.range_succ, List.foldl_append, ih, sum_range_succ]; rfl
  rw [accumulateExactPq4Lut, hfold]
  refine sum_congr rfl fun m hm => ?_
  rw [hreads m (mem_range.mp hm), Nat.mul_comm m 16]

/-- The lookup-table sum of a row is the inner product of the rotated query with
the decoded direction of its code. -/
def CodecConsistent (faiss : Faiss ℝ) (quantizer : RecastQuantizer ℝ ℝ)
    (context : QueryContext ℝ) {layout : CodeLayout} (code : Code layout) : Prop :=
  ∑ m ∈ range layout.subquantizers, context.dotLut.getD (16 * m + (code.element m).toNat) 0 =
    exactDot context.transformedQuery (quantizer.direction.decode faiss code.bytes)

/-- What the estimate of a row means, metric by metric. -/
def EstimateOf (quantizer : RecastQuantizer ℝ ℝ) (query decoded : List ℝ) (n estimate : ℝ) :
    Prop :=
  match quantizer.config.metric with
  | .squaredL2 =>
      let centered := center quantizer.mean query
      estimate = exactDot centered centered + n ^ 2 -
        2 • exactDot centered (center quantizer.mean decoded)
  | .innerProduct => estimate = -exactDot query decoded
  | .cosine =>
      n * (1 - estimate) =
        exactDot (query.map fun value => value / Real.sqrt (exactDot query query)) decoded

theorem scan_estimate_row (hfaiss : FaissShapes faiss) (hexact : FaissExact faiss)
    (hlearned : quantizer.Learned exactNumerics faiss) {query : List ℝ}
    (hquery : query.length = quantizer.config.dimension) {context : QueryContext ℝ}
    (hprepare : quantizer.prepareQuery exactNumerics faiss query = .ok context)
    {layout : CodeLayout} (code : Code layout) (metadata : Metadata)
    (hcodec : CodecConsistent faiss quantizer context code) :
    EstimateOf quantizer query (quantizer.decode faiss code.bytes metadata)
      (quantizer.decodeMetadata metadata).norm
      (scalarMetricValues quantizer.config.metric context
        (1 / exactNumerics.sqrt ((quantizer.config.dimension : ℕ) : ℝ))
        (quantizer.decodeMetadata metadata)
        (∑ m ∈ range layout.subquantizers,
          context.dotLut.getD (16 * m + (code.element m).toNat) 0)).1 := by
  -- up to the mean, the decoded vector is one whose dot products the table gives
  obtain ⟨centered, hdecode, hlength, hdot⟩ :=
    decode_eq hfaiss hexact hlearned code.bytes metadata
  rw [hcodec, hdecode]
  simp only [RecastQuantizer.prepareQuery, guard_eq_ok, bind_eq_ok, Prod.exists] at hprepare
  obtain ⟨-, unit, norm, squared, hcenter, hcontext⟩ := hprepare
  cases hcontext
  unfold EstimateOf
  unfold RecastQuantizer.centerQuery at hcenter
  have hmean := hlearned.hmean
  cases hmetric : quantizer.config.metric with
  | squaredL2 =>
      simp only [hmetric, Except.ok.injEq, Prod.mk.injEq] at hcenter
      obtain ⟨rfl, -, rfl⟩ := hcenter
      have hcentered : (center quantizer.mean query).length = quantizer.config.dimension := by
        simp [center, hquery, hmean]
      have hvalue := hdot _ hcentered
      simp only [hmetric, reduceCtorEq, if_false] at hvalue
      simp only [scalarMetricValues, hexact.hnorm]
      rw [center_add (by rw [hlength, hmean]), hvalue]
      push_cast
      ring
  | innerProduct =>
      simp only [hmetric, Except.ok.injEq, Prod.mk.injEq] at hcenter
      obtain ⟨rfl, -, rfl⟩ := hcenter
      have hvalue := hdot query hquery
      simp only [hmetric, reduceCtorEq, if_false] at hvalue
      -- without centering the code leaves the term out, and the mean is zero
      have hmeanDot : (if quantizer.config.centering = .mean then
          faiss.innerProduct query quantizer.mean else 0) = exactDot query quantizer.mean := by
        split
        · exact hexact.hinner _ _
        · next hnot =>
            have hcentering : quantizer.config.centering = .none := by
              cases h : quantizer.config.centering with
              | none => rfl
              | mean => exact absurd h hnot
            rw [exactDot_mean_eq_zero hlearned hcentering]
      simp only [scalarMetricValues, true_and]
      rw [hmeanDot, exactDot_add_right (by rw [hquery, hlength]) (by rw [hquery, hmean]), hvalue]
      ring
  | cosine =>
      simp only [hmetric, guard_eq_ok, Except.ok.injEq, Prod.mk.injEq] at hcenter
      obtain ⟨hnorm, rfl, -, -⟩ := hcenter
      have hsqrt : ¬exactNumerics.sqrt (faiss.normL2Sqr query) ≤ exactNumerics.kMinNorm := by
        intro hsmall
        refine hnorm ?_
        rw [normalize, if_pos hsmall]
        simp only [exactNumerics]
        positivity
      -- an accepted query is longer than the smallest norm, so it is divided by its length
      have hunit : (normalize exactNumerics faiss query).1 =
          query.map fun value => value / Real.sqrt (exactDot query query) := by
        rw [normalize, if_neg hsqrt, hexact.hnorm]
        refine List.map_congr_left fun value _ => ?_
        rw [one_div, div_eq_mul_inv]
        rfl
      have hvalue := hdot (normalize exactNumerics faiss query).1 (by
        rw [hunit, List.length_map, hquery])
      simp only [hmetric, if_true] at hvalue
      simp only [scalarMetricValues]
      rw [← hunit, exactDot_add_right (by rw [hunit, List.length_map, hquery, hlength])
        (by rw [hunit, List.length_map, hquery, hmean]),
        exactDot_mean_eq_zero hlearned (centering_of_cosine hlearned hmetric), hvalue]
      ring

end Learned

/-- For every trained quantizer, accepted query and scanned row: the emitted
estimate is the metric of the vector that `decode` returns for the row. -/
theorem scan_estimate_is_decoded_metric {faiss : Faiss ℝ} (hfaiss : FaissShapes faiss)
    (hexact : FaissExact faiss) {quantizer : RecastQuantizer ℝ ℝ}
    (hcompleted : Completed exactNumerics faiss quantizer) {query : List ℝ}
    (hquery : query.length = quantizer.config.dimension) {context : QueryContext ℝ}
    (hprepare : quantizer.prepareQuery exactNumerics faiss query = .ok context)
    {layout : CodeLayout} (packedCodes packedMetadata : Bytes)
    {size row : ℕ} (hrow : row < size) (code : Code layout)
    (hreads : ∀ m < layout.subquantizers,
      layout.getPackedElement packedCodes row m = code.element m)
    (hcodec : CodecConsistent faiss quantizer context code) :
    ∃ (estimate : ℝ) (uncertainty : Option ℝ),
      (scanExact exactNumerics quantizer context layout packedCodes packedMetadata size)[row]? =
        some ⟨some estimate, uncertainty⟩ ∧
      EstimateOf quantizer query
        (quantizer.decode faiss code.bytes (Metadata.load packedMetadata row))
        (quantizer.decodeMetadata (Metadata.load packedMetadata row)).norm estimate := by
  have hestimate := scan_estimate_row hfaiss hexact (hcompleted.learned hfaiss) hquery hprepare
    code (Metadata.load packedMetadata row) hcodec
  rw [← accumulate_eq hreads] at hestimate
  refine ⟨_, (postprocessRow exactNumerics quantizer context (Metadata.load packedMetadata row)
    (accumulateExactPq4Lut layout packedCodes context.dotLut row)).uncertainty, ?_, hestimate⟩
  rw [scanExact, List.getElem?_map, List.getElem?_range hrow]
  rfl

/-! ## Sixteen vectors of the plane -/

/-- Faiss with exact sums and codes of nearest centroids, trained on the vectors of
`planeRows`. -/
noncomputable def planeFaiss : Faiss ℝ where
  normL2Sqr v := exactDot v v
  innerProduct := exactDot
  trainPca := planarPca
  apply transform x := (List.range transform.dOut).map fun i =>
    (∑ j ∈ range transform.dIn, transform.entry i j * x.getD j 0) + transform.b.getD i 0
  transformTranspose transform y := (List.range transform.dIn).map fun j =>
    ∑ i ∈ range transform.dOut, transform.entry i j * (y.getD i 0 - transform.b.getD i 0)
  createPq := newPq
  trainPq := copyVectors
  computeCode pq row := exactCodes pq [row]
  decode pq code := (List.range pq.d).map fun i =>
    (pq.centroid (i / pq.dsub) (halfOf code (i / pq.dsub))).getD (i % pq.dsub) 0
  innerProdTable pq := pq.table productTerm

theorem planeFaiss_shapes : FaissShapes planeFaiss :=
  planar_shapes rfl rfl rfl fun _ _ => by rw [planeFaiss, List.length_map, List.length_range]

theorem planeFaiss_exact : FaissExact planeFaiss :=
  ⟨fun _ => rfl, fun _ _ => rfl, fun _ _ => rfl, fun _ _ => rfl⟩

/-- Sixteen vectors around `(3, 5)`. -/
def planeRows : List (List ℝ) :=
  (List.replicate 4 [[3, 7], [3, 3], [4, 5], [((2 : ℕ) : ℝ), 5]]).flatten

/-- The codebook of the directions of these vectors, with swapped coordinates. -/
def planePq : ProductQuantizer ℝ :=
  ⟨2, 2, 4, 16, 1, (List.replicate 4 [1, -1, 0, 0]).flatten ++
    (List.replicate 4 [0, 0, 1, -1]).flatten⟩

def planeRotation : LinearTransform ℝ := ⟨2, 2, true, true, [0, 1, 1, 0], [0, 0]⟩

/-- Two dimensions, centered and rotated. -/
noncomputable def planeStart : RecastQuantizer ℝ ℝ :=
  ⟨⟨2, 2, .uniform, .pca, .squaredL2, .mean⟩, [0, 0], none,
    .uniform ⟨2, 2, 4, 16, 1, List.replicate 32 0⟩, 0, 1, 0, 1, false⟩

/-- What training on `planeRows` leaves. -/
noncomputable def planeQuantizer : RecastQuantizer ℝ ℝ :=
  ⟨planeStart.config, [3, 5], some planeRotation, .uniform planePq, (2 : ℕ),
    (2 : ℕ) / ((254 : ℕ) : ℝ), (2 : ℕ), (2 : ℕ) / ((254 : ℕ) : ℝ), true⟩

theorem exactDot_pair (a b c d : ℝ) : exactDot [a, b] [c, d] = a * c + b * d := by
  simp [exactDot, sum_range_succ]

theorem normalize_pair {a b : ℝ} (norm : ℝ) (hnorm : a * a + b * b = norm * norm) (hone : 1 ≤ norm) :
    normalize exactNumerics planeFaiss [a, b] = ([a * (1 / norm), b * (1 / norm)], norm) := by
  have hsqrt : exactNumerics.sqrt (planeFaiss.normL2Sqr [a, b]) = norm := by
    change Real.sqrt (exactDot [a, b] [a, b]) = norm
    rw [exactDot_pair, hnorm, Real.sqrt_mul_self (by linarith)]
  have hmin : ¬norm ≤ exactNumerics.kMinNorm := by
    simp only [exactNumerics]
    norm_num
    linarith
  rw [normalize, hsqrt]
  dsimp only
  rw [if_neg hmin]
  rfl

theorem apply_planeRotation (a b : ℝ) : planeFaiss.apply planeRotation [a, b] = [b, a] := by
  have hrange : List.range planeRotation.dOut = [0, 1] := rfl
  simp only [planeFaiss, hrange, List.map_cons, List.map_nil]
  simp [planeRotation, LinearTransform.entry, sum_range_succ]

theorem transformTranspose_planeRotation (a b : ℝ) :
    planeFaiss.transformTranspose planeRotation [a, b] = [b, a] := by
  have hrange : List.range planeRotation.dIn = [0, 1] := rfl
  simp only [planeFaiss, hrange, List.map_cons, List.map_nil]
  simp [planeRotation, LinearTransform.entry, sum_range_succ]

theorem learnMean_planeRows : learnMean planeStart.config planeRows = [3, 5] := by
  have hsum (j : ℕ) : planeRows.foldl (fun sum row => sum + row.getD j 0) 0 =
      4 * (([3, 7] : List ℝ).getD j 0 + ([3, 3] : List ℝ).getD j 0 + ([4, 5] : List ℝ).getD j 0 +
        ([2, 5] : List ℝ).getD j 0) := by
    simp only [planeRows, List.replicate_succ, List.replicate_zero, List.flatten_cons,
      List.flatten_nil, List.append_nil, List.cons_append, List.nil_append, List.foldl_cons,
      List.foldl_nil, Nat.cast_ofNat]
    ring
  have hcount : planeRows.length = 16 := rfl
  simp only [learnMean, planeStart, hsum, hcount]
  change [_, _] = _
  norm_num

theorem splitRows_planeRows : splitRows exactNumerics planeFaiss [3, 5] planeRows =
    (List.replicate 4 [([0, 1], 2), ([0, -1], 2), ([1, 0], 1), ([-1, 0], 1)]).flatten := by
  rw [splitRows, planeRows, List.map_flatten, List.map_replicate]
  have hcenter (a b : ℝ) : center [3, 5] [a, b] = [a - 3, b - 5] := rfl
  simp only [List.map_cons, List.map_nil, hcenter]
  rw [normalize_pair 2 (by norm_num) (by norm_num), normalize_pair 2 (by norm_num) (by norm_num),
    normalize_pair 1 (by norm_num) (by norm_num), normalize_pair 1 (by norm_num) (by norm_num)]
  norm_num

/-- Every direction of the training set is coded to itself. -/
theorem decode_computeCode_planePq {row : List ℝ}
    (hrow : row ∈ ([[1, 0], [-1, 0], [0, 1], [0, -1]] : List (List ℝ))) :
    planeFaiss.decode planePq (planeFaiss.computeCode planePq row) = row := by
  have hslice : slice (exactCodes planePq [row]) (0 * (planePq.M / 2)) (planePq.M / 2) =
      exactCodes planePq [row] := List.take_of_length_le (by simp [exactCodes, planePq])
  have hcode {m : ℕ} (hm : m < 2) :
      halfOf (planeFaiss.computeCode planePq row) m = nearest planePq row m := by
    have hhalf := halfOf_exactCodes (rfl : planePq.M % 2 = 0) [row] Nat.one_pos hm
    rwa [hslice] at hhalf
  have hshaped : planePq.Shaped (2 * 1) 2 nbits := ⟨rfl, rfl, rfl, rfl, rfl, rfl⟩
  have hlength : ∀ m < 2, ∀ k < 16, (planePq.centroid m k).length = 1 := fun m hm k hk =>
    (length_centroid hshaped hm hk).2
  have hexact (x y : ℝ) {k : ℕ} (hk : k < 16) (hfirst : planePq.centroid 0 k = [x])
      (hsecond : planePq.centroid 1 k = [y]) :
      [(planePq.centroid 0 (nearest planePq [x, y] 0)).getD 0 0,
        (planePq.centroid 1 (nearest planePq [x, y] 1)).getD 0 0] = [x, y] := by
    rw [centroid_nearest (hlength 0 (by decide)) hk (by rw [hfirst]; rfl),
      centroid_nearest (hlength 1 (by decide)) hk (by rw [hsecond]; rfl)]
    rfl
  have hpair : planeFaiss.decode planePq (planeFaiss.computeCode planePq row) =
      [(planePq.centroid 0 (nearest planePq row 0)).getD 0 0,
        (planePq.centroid 1 (nearest planePq row 1)).getD 0 0] := by
    rw [← hcode (by decide), ← hcode (by decide)]
    rfl
  rw [hpair]
  simp only [List.mem_cons, List.not_mem_nil, or_false] at hrow
  rcases hrow with rfl | rfl | rfl | rfl
  · exact hexact 1 0 (by decide : 0 < 16) rfl rfl
  · exact hexact (-1) 0 (by decide : 1 < 16) rfl rfl
  · exact hexact 0 1 (by decide : 2 < 16) rfl rfl
  · exact hexact 0 (-1) (by decide : 3 < 16) rfl rfl

theorem reconstructionNorm_planePq {row : List ℝ}
    (hrow : row ∈ ([[1, 0], [-1, 0], [0, 1], [0, -1]] : List (List ℝ))) :
    reconstructionNorm exactNumerics planeFaiss (.uniform planePq : DirectionQuantizer ℝ ℝ) row =
      1 := by
  have hunit : exactDot row row = 1 := by
    simp only [List.mem_cons, List.not_mem_nil, or_false] at hrow
    rcases hrow with rfl | rfl | rfl | rfl <;> norm_num [exactDot_pair]
  change Real.sqrt (exactDot _ _) = 1
  change Real.sqrt (exactDot (planeFaiss.decode planePq (planeFaiss.computeCode planePq row))
    (planeFaiss.decode planePq (planeFaiss.computeCode planePq row))) = 1
  rw [decode_computeCode_planePq hrow, hunit, Real.sqrt_one]

theorem planeRows_directions {quantizer : RecastQuantizer ℝ ℝ}
    (hrotation : quantizer.rotation = some planeRotation) :
    ((splitRows exactNumerics planeFaiss [3, 5] planeRows).map Prod.fst).map
        (quantizer.transform planeFaiss) =
      (List.replicate 4 [[1, 0], [-1, 0], [0, 1], [0, -1]]).flatten := by
  have htransform (a b : ℝ) : quantizer.transform planeFaiss [a, b] = [b, a] := by
    rw [RecastQuantizer.transform, hrotation]
    exact apply_planeRotation a b
  rw [splitRows_planeRows, List.map_flatten, List.map_replicate, List.map_flatten,
    List.map_replicate]
  simp only [List.map_cons, List.map_nil, htransform]

theorem planeRows_norms : (splitRows exactNumerics planeFaiss [3, 5] planeRows).map Prod.snd =
    (List.replicate 4 [2, 2, 1, 1]).flatten := by
  rw [splitRows_planeRows, List.map_flatten, List.map_replicate]
  rfl

theorem largestNorm_planeRows : largestNorm (List.replicate 4 [(2 : ℝ), 2, 1, 1]).flatten = 2 := by
  norm_num [largestNorm, List.replicate_succ, maxOf]

theorem copyVectors_planeRows :
    copyVectors ⟨2, 2, 4, 16, 1, List.replicate 32 0⟩
      (List.replicate 4 [[1, 0], [-1, 0], [0, 1], [0, -1]]).flatten = (planePq, none) := rfl

/-- When every row is restored in its length, the scales are the norms. -/
theorem largestScale_eq_largestNorm {transformed : List (List ℝ)}
    (hrows : ∀ row ∈ transformed, ∀ norm, scaleOf exactNumerics .squaredL2 norm
      (reconstructionNorm exactNumerics planeFaiss (.uniform planePq : DirectionQuantizer ℝ ℝ)
        row) = some norm) {norms : List ℝ} (hlength : norms.length = transformed.length) :
    largestScale exactNumerics planeFaiss .squaredL2 (.uniform planePq : DirectionQuantizer ℝ ℝ)
      norms transformed = largestNorm norms := by
  unfold largestScale largestNorm
  generalize (0 : ℝ) = top
  induction norms generalizing transformed top with
  | nil => rfl
  | cons norm norms ih =>
      cases transformed with
      | nil => cases hlength
      | cons row transformed =>
          obtain ⟨hrow, hrest⟩ := List.forall_mem_cons.mp hrows
          simp only [List.zip_cons_cons, List.foldl_cons, hrow]
          exact ih hrest (Nat.succ.inj hlength) _

theorem largestScale_planeRows :
    largestScale exactNumerics planeFaiss .squaredL2 (.uniform planePq : DirectionQuantizer ℝ ℝ)
      (List.replicate 4 [2, 2, 1, 1]).flatten
      (List.replicate 4 [[1, 0], [-1, 0], [0, 1], [0, -1]]).flatten = 2 := by
  rw [largestScale_eq_largestNorm _ rfl, largestNorm_planeRows]
  intro row hrow norm
  obtain ⟨rows, hrows, hrow⟩ := List.mem_flatten.mp hrow
  rw [List.eq_of_mem_replicate hrows] at hrow
  rw [reconstructionNorm_planePq hrow, scaleOf, if_pos]
  · simp
  · refine ⟨?_, .inl (by decide)⟩
    norm_num [exactNumerics]

theorem planeStart_train :
    planeStart.train exactNumerics planeFaiss planeRows = (planeQuantizer, none) := by
  have hrows : planeRows ≠ [] := by
    rw [planeRows]
    simp [List.replicate_succ]
  have hmax : largestNorm ((splitRows exactNumerics planeFaiss [3, 5] planeRows).map Prod.snd) =
      2 := by
    rw [planeRows_norms, largestNorm_planeRows]
  have htransform (centered : List (List ℝ)) :
      ({ planeStart with mean := [3, 5], normMax := 2 } : RecastQuantizer ℝ ℝ).trainTransform
        planeFaiss centered =
      ({ planeStart with mean := [3, 5], normMax := 2, rotation := some planeRotation }, none) := by
    have hrange : List.range (2 * 2) = [0, 1, 2, 3] := rfl
    simp [RecastQuantizer.trainTransform, RecastQuantizer.learnRotation, planeStart, planeFaiss,
      planarPca, hrange, planeRotation]
  have hstep : stepOf (2 : ℝ) = 2 / ((254 : ℕ) : ℝ) := if_pos two_pos
  rw [RecastQuantizer.train, if_neg hrows]
  simp only [learnMean_planeRows, hmax, htransform]
  rw [planeRows_directions rfl, planeRows_norms]
  have hdirection : planeStart.direction.train exactNumerics planeFaiss
      (List.replicate 4 [[1, 0], [-1, 0], [0, 1], [0, -1]]).flatten = (.uniform planePq, none) := by
    rw [planeStart, DirectionQuantizer.train]
    change (DirectionQuantizer.uniform (copyVectors _ _).1, (copyVectors _ _).2) = _
    rw [copyVectors_planeRows]
  rw [hdirection]
  change (({ planeQuantizer with
    normStep := stepOf 2
    scaleMax := largestScale exactNumerics planeFaiss .squaredL2 (.uniform planePq) _ _
    scaleStep := stepOf (largestScale exactNumerics planeFaiss .squaredL2 (.uniform planePq) _ _) } :
    RecastQuantizer ℝ ℝ), none) = _
  rw [largestScale_planeRows, hstep]
  rfl

theorem planeQuantizer_completed : Completed exactNumerics planeFaiss planeQuantizer := by
  have hcreate : RecastQuantizer.create planeFaiss planeStart.config = .ok planeStart := rfl
  refine .train (.create hcreate) planeRows (fun row hrow => ?_) planeStart_train
  obtain ⟨rows, hrows, hrow⟩ := List.mem_flatten.mp hrow
  rw [List.eq_of_mem_replicate hrows] at hrow
  simp only [List.mem_cons, List.not_mem_nil, or_false] at hrow
  rcases hrow with rfl | rfl | rfl | rfl <;> rfl

/-- The query `(4, 7)` as `prepare_query` leaves it. -/
noncomputable def planeContext : QueryContext ℝ :=
  ⟨[1, (2 : ℕ)], [(2 : ℕ), 1], planePq.table productTerm [(2 : ℕ), 1], Real.sqrt 5, 5, 0⟩

theorem prepareQuery_plane :
    planeQuantizer.prepareQuery exactNumerics planeFaiss [4, 7] = .ok planeContext := by
  have hcenter : planeQuantizer.centerQuery exactNumerics planeFaiss [4, 7] =
      .ok ([1, 2], Real.sqrt 5, 5) := by
    have hcentered : center planeQuantizer.mean [4, 7] = [1, 2] := by
      norm_num [center, planeQuantizer]
    have hsquared : exactDot [1, 2] [1, 2] = 5 := by norm_num [exactDot_pair]
    change Except.ok (center planeQuantizer.mean [4, 7], Real.sqrt (exactDot _ _), exactDot _ _) = _
    rw [hcentered, hsquared]
  have htransform : planeQuantizer.transform planeFaiss [1, 2] = [2, 1] := apply_planeRotation 1 2
  rw [RecastQuantizer.prepareQuery, if_neg (by simp [planeQuantizer]), hcenter]
  change Except.ok (_ : QueryContext ℝ) = _
  simp only [htransform]
  rfl

theorem planeFaiss_codec (code : Code .oneByte) :
    CodecConsistent planeFaiss planeQuantizer planeContext code := by
  have hshaped : planePq.Shaped (2 * 1) 2 nbits := ⟨rfl, rfl, rfl, rfl, rfl, rfl⟩
  have hentry {m : ℕ} (hm : m < 2) :
      planeContext.dotLut.getD (16 * m + (code.element m).toNat) 0 =
        form productTerm (planePq.part [2, 1] m) (planePq.centroid m (halfOf code.bytes m)) :=
    entryOf_table productTerm [2, 1] code.bytes hm
  have hdecode : planeQuantizer.direction.decode planeFaiss code.bytes =
      [(planePq.centroid 0 (halfOf code.bytes 0)).getD 0 0,
        (planePq.centroid 1 (halfOf code.bytes 1)).getD 0 0] := rfl
  have hone {m : ℕ} (hm : m < 2) (x : ℝ) :
      form productTerm [x] (planePq.centroid m (halfOf code.bytes m)) =
        x * (planePq.centroid m (halfOf code.bytes m)).getD 0 0 := by
    obtain ⟨c, hc⟩ := List.length_eq_one_iff.mp
      (length_centroid hshaped hm (halfOf_lt code.bytes m)).2
    rw [hc]
    simp [form, productTerm]
  have hfirst : planePq.part [2, 1] 0 = [2] := rfl
  have hsecond : planePq.part [2, 1] 1 = [1] := rfl
  rw [CodecConsistent, hdecode]
  change ∑ m ∈ range 2, _ = exactDot [2, 1] _
  rw [exactDot_pair, sum_range_succ, sum_range_one, hentry (by decide), hentry (by decide), hfirst,
    hsecond, hone (by decide), hone (by decide)]

/-- The second of two rows in a block: the norm and the scale are one half of the
largest, the code decodes to the direction `(-1, 1)`. -/
theorem scan_estimate_is_decoded_metric_plane :
    planeQuantizer.mean = [3, 5] ∧ planeQuantizer.rotation = some planeRotation ∧
      planeQuantizer.decode planeFaiss [0x21] ⟨127, 127, 20⟩ = [4, 4] ∧
      EstimateOf planeQuantizer [4, 7] [4, 4] 1 8 ∧
      ∃ uncertainty,
        (scanExact exactNumerics planeQuantizer planeContext .oneByte
          (CodeLayout.oneByte.packCodesRange [⟨[0x03], rfl⟩, ⟨[0x21], rfl⟩] 0 (List.replicate 32 0))
          (List.replicate 64 127 ++ List.replicate 32 20) 2)[1]? = some ⟨some 8, uncertainty⟩ := by
  obtain ⟨estimate, uncertainty, hscan, hestimate⟩ := scan_estimate_is_decoded_metric
    planeFaiss_shapes planeFaiss_exact planeQuantizer_completed rfl prepareQuery_plane
    (CodeLayout.oneByte.packCodesRange [⟨[0x03], rfl⟩, ⟨[0x21], rfl⟩] 0 (List.replicate 32 0))
    (List.replicate 64 127 ++ List.replicate 32 20) (by decide : 1 < 2) ⟨[0x21], rfl⟩
    (by decide) (planeFaiss_codec _)
  have hmetadata : Metadata.load (List.replicate 64 127 ++ List.replicate 32 20) 1 =
      ⟨127, 127, 20⟩ := by decide
  have hbyte : byteValue 127 * (2 / ((254 : ℕ) : ℝ)) = 1 := by
    change ((127 : ℕ) : ℝ) * _ = 1
    norm_num
  have hnorm : (planeQuantizer.decodeMetadata ⟨127, 127, 20⟩).norm = 1 := by
    rw [RecastQuantizer.decodeMetadata, if_neg (by decide)]
    exact hbyte
  have hscale : (planeQuantizer.decodeMetadata ⟨127, 127, 20⟩).scale = 1 := by
    simp only [RecastQuantizer.decodeMetadata]
    rw [if_neg (by decide)]
    exact hbyte
  have hdecode : planeQuantizer.decode planeFaiss [0x21] ⟨127, 127, 20⟩ = [4, 4] := by
    have hdirection : planeFaiss.decode planePq [0x21] = [-1, 1] := rfl
    change (planeFaiss.transformTranspose planeRotation ((planeFaiss.decode planePq [0x21]).map
      (· * (planeQuantizer.decodeMetadata ⟨127, 127, 20⟩).scale))).zipWith (· + ·) [3, 5] = _
    rw [hdirection, hscale]
    simp only [List.map_cons, List.map_nil, transformTranspose_planeRotation]
    norm_num
  rw [hmetadata, hnorm, hdecode] at hestimate
  have hvalue : estimate = 8 := by
    have hquery : center planeQuantizer.mean [4, 7] = [1, 2] := by norm_num [center, planeQuantizer]
    have hrow : center planeQuantizer.mean [4, 4] = [1, -1] := by norm_num [center, planeQuantizer]
    have hestimate := hestimate
    change estimate = exactDot (center planeQuantizer.mean [4, 7])
      (center planeQuantizer.mean [4, 7]) + 1 ^ 2 - 2 • exactDot (center planeQuantizer.mean [4, 7])
        (center planeQuantizer.mean [4, 4]) at hestimate
    rw [hestimate, hquery, hrow, exactDot_pair, exactDot_pair]
    norm_num
  subst hvalue
  exact ⟨rfl, rfl, hdecode, hestimate, uncertainty, hscan⟩

end Recast
