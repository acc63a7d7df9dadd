import Recast.Scan.Encoding
import Recast.Scan.ExactEstimate

/-!
# Training rows stay in the trained ranges

Training learns the norm and scale ranges from one pass over its rows, encoding
computes both again. Every training row comes out within the ranges.
-/

namespace Recast

section Ranges

variable {F K : Type}
variable [Zero F] [One F] [Add F] [Sub F] [Mul F] [Div F] [NatCast F]
variable [LT F] [DecidableLT F] [LE F] [DecidableLE F]
variable [Zero K] [One K] [Add K] [Sub K] [Mul K] [Div K] [Neg K] [NatCast K]
variable [LT K] [DecidableLT K] [LE K] [DecidableLE K] [BEq K]
variable {numerics : Numerics F K} {faiss : Faiss F}

/-- The ranges a completed training call leaves, in terms of what it leaves. -/
theorem RecastQuantizer.train_ranges {quantizer quantizer' : RecastQuantizer F K}
    {rows : List (List F)} (h : quantizer.train numerics faiss rows = (quantizer', none)) :
    quantizer'.trained = true ∧
      quantizer'.normMax =
        largestNorm ((splitRows numerics faiss quantizer'.mean rows).map Prod.snd) ∧
      quantizer'.normStep = stepOf quantizer'.normMax ∧
      quantizer'.scaleMax =
        largestScale numerics faiss quantizer'.config.metric quantizer'.direction
          ((splitRows numerics faiss quantizer'.mean rows).map Prod.snd)
          (((splitRows numerics faiss quantizer'.mean rows).map Prod.fst).map
            (quantizer'.transform faiss)) ∧
      quantizer'.scaleStep = stepOf quantizer'.scaleMax := by
  unfold RecastQuantizer.train at h
  split at h
  · simp at h
  dsimp only at h
  generalize hstart : ({ quantizer with
    mean := learnMean quantizer.config rows
    normMax := largestNorm ((splitRows numerics faiss (learnMean quantizer.config rows) rows).map
      Prod.snd) } : RecastQuantizer F K) = start at h
  obtain ⟨rotation, hframe, -⟩ := start.trainTransform_frame faiss
    (rows.map (center (learnMean quantizer.config rows)))
  rcases htransform : start.trainTransform faiss
    (rows.map (center (learnMean quantizer.config rows))) with ⟨rotated, error⟩
  rw [htransform] at hframe h
  cases error with
  | some error => simp at h
  | none =>
      dsimp only at hframe h
      subst hframe
      split at h
      · simp at h
      next direction heq =>
      simp only [Prod.mk.injEq, and_true] at h
      subst h
      rw [← hstart]
      exact ⟨rfl, rfl, rfl, rfl, rfl⟩

end Ranges

section Largest

variable {α β : Type} [Preorder β] {f : β → α → β}

theorem start_le_foldl (hstep : ∀ top a, top ≤ f top a) (values : List α) :
    ∀ start, start ≤ values.foldl f start := by
  induction values with
  | nil => exact fun start => le_rfl
  | cons value rest ih => exact fun start => (hstep start value).trans (ih _)

/-- What one step of a growing fold puts below the result stays below it. -/
theorem le_foldl (hstep : ∀ top a, top ≤ f top a) {bound : β} {value : α}
    (hvalue : ∀ top, bound ≤ f top value) {values : List α} (h : value ∈ values) (start : β) :
    bound ≤ values.foldl f start := by
  obtain ⟨before, after, rfl⟩ := List.append_of_mem h
  rw [List.foldl_append, List.foldl_cons]
  exact (hvalue _).trans (start_le_foldl hstep after _)

variable {K : Type} {numerics : Numerics ℝ K} {faiss : Faiss ℝ}

theorem le_largestNorm {norm : ℝ} {norms : List ℝ} (h : norm ∈ norms) : norm ≤ largestNorm norms := by
  refine le_foldl (fun top a => ?_) (fun top => ?_) h 0
  · exact maxOf_eq_max top a ▸ le_max_left _ _
  · exact maxOf_eq_max top norm ▸ le_max_right _ _

theorem le_largestScale {metric : DistanceMetric} {direction : DirectionQuantizer ℝ K}
    {norms : List ℝ} {transformed : List (List ℝ)} {norm : ℝ} {row : List ℝ}
    (h : (norm, row) ∈ norms.zip transformed) {scale : ℝ}
    (hscale : scaleOf numerics metric norm (reconstructionNorm numerics faiss direction row) =
      some scale) :
    scale ≤ largestScale numerics faiss metric direction norms transformed := by
  refine le_foldl (fun top pair => ?_) (fun top => ?_) h 0
  · split
    · exact maxOf_eq_max top _ ▸ le_max_left _ _
    · exact le_rfl
  · simp only [hscale]
    exact maxOf_eq_max top scale ▸ le_max_right _ _

end Largest

section TrainingRows

variable {faiss : Faiss ℝ} {quantizer quantizer' : RecastQuantizer ℝ ℝ}
variable {rows : List (List ℝ)} {row : List ℝ}

theorem normalize_norm_nonneg (vector : List ℝ) :
    0 ≤ (normalize exactNumerics faiss vector).2 := by
  unfold normalize
  simp only
  split
  · exact le_rfl
  · next h => exact (show (0 : ℝ) ≤ 1 / 10 ^ 12 by positivity).trans (not_le.mp h).le

/-- Normalizing in place and measuring only agree on what counts as a direction. -/
theorem normalize_norm_eq {vector : List ℝ}
    (h : exactNumerics.kMinNorm < exactNumerics.sqrt (faiss.normL2Sqr vector)) :
    (normalize exactNumerics faiss vector).2 = exactNumerics.sqrt (faiss.normL2Sqr vector) := by
  unfold normalize
  simp only
  rw [if_neg (not_le.mpr h)]

/-- The centered norm of a row, as `normalize` returns it. -/
noncomputable def centeredNorm (faiss : Faiss ℝ) (quantizer : RecastQuantizer ℝ ℝ) (row : List ℝ) : ℝ :=
  (normalize exactNumerics faiss (center quantizer.mean row)).2

/-- The norm of what the codec restores of the direction of a row. -/
noncomputable def restoredNorm (faiss : Faiss ℝ) (quantizer : RecastQuantizer ℝ ℝ) (row : List ℝ) : ℝ :=
  reconstructionNorm exactNumerics faiss quantizer.direction
    (quantizer.transform faiss (normalize exactNumerics faiss (center quantizer.mean row)).1)

/-- The scale of a row with a direction, before it is coded. -/
noncomputable def trueScale (faiss : Faiss ℝ) (quantizer : RecastQuantizer ℝ ℝ) (row : List ℝ) : ℝ :=
  if quantizer.config.metric = .cosine then 1 / restoredNorm faiss quantizer row
  else centeredNorm faiss quantizer row / restoredNorm faiss quantizer row

/-- Neither the reconstruction nor, for cosine, the row is at the zero threshold. -/
def HasDirection (faiss : Faiss ℝ) (quantizer : RecastQuantizer ℝ ℝ) (row : List ℝ) : Prop :=
  exactNumerics.kMinNorm < restoredNorm faiss quantizer row ∧
    (quantizer.config.metric = .cosine →
      exactNumerics.kMinNorm < centeredNorm faiss quantizer row)

/-- The metadata of a row decodes within half a step of its norm and, when the
row has a direction, of its scale, without overflow. -/
structure RowInRange (faiss : Faiss ℝ) (quantizer : RecastQuantizer ℝ ℝ) (row : List ℝ)
    (metadata : Metadata) : Prop where
  norm_code : metadata.norm.toNat ≤ 254
  norm_close : |(quantizer.decodeMetadata metadata).norm - centeredNorm faiss quantizer row| ≤
    quantizer.normStep / 2
  scale_code : HasDirection faiss quantizer row → metadata.scale.toNat ≤ 254
  scale_close : HasDirection faiss quantizer row →
    |(quantizer.decodeMetadata metadata).scale - trueScale faiss quantizer row| ≤
      quantizer.scaleStep / 2
  finite : HasDirection faiss quantizer row → ∀ query inverseSqrtDimension dot,
    (scalarMetricValues quantizer.config.metric query inverseSqrtDimension
      (quantizer.decodeMetadata metadata) dot).2.isSome

theorem centeredNorm_nonneg (row : List ℝ) : 0 ≤ centeredNorm faiss quantizer row :=
  normalize_norm_nonneg _

/-- The norm of a training row is among the norms of the training pass. -/
theorem centeredNorm_le (htrain : quantizer.train exactNumerics faiss rows = (quantizer', none))
    (hrow : row ∈ rows) : centeredNorm faiss quantizer' row ≤ quantizer'.normMax := by
  rw [(RecastQuantizer.train_ranges htrain).2.1]
  exact le_largestNorm (List.mem_map.mpr ⟨_, List.mem_map_of_mem hrow, rfl⟩)

/-- The scale of a training row is among the scales of the training pass. -/
theorem trueScale_le (htrain : quantizer.train exactNumerics faiss rows = (quantizer', none))
    (hrow : row ∈ rows) (hdirection : HasDirection faiss quantizer' row) :
    trueScale faiss quantizer' row ≤ quantizer'.scaleMax := by
  rw [(RecastQuantizer.train_ranges htrain).2.2.2.1]
  have hmem : (centeredNorm faiss quantizer' row, quantizer'.transform faiss
      (normalize exactNumerics faiss (center quantizer'.mean row)).1) ∈
      ((splitRows exactNumerics faiss quantizer'.mean rows).map Prod.snd).zip
        (((splitRows exactNumerics faiss quantizer'.mean rows).map Prod.fst).map
          (quantizer'.transform faiss)) := by
    rw [List.map_map, List.zip_map', splitRows, List.map_map]
    exact List.mem_map.mpr ⟨row, hrow, rfl⟩
  refine le_largestScale hmem ?_
  rw [scaleOf, if_pos ⟨hdirection.1, Decidable.not_or_of_imp hdirection.2⟩]
  rfl

theorem trueScale_nonneg (hdirection : HasDirection faiss quantizer row) :
    0 ≤ trueScale faiss quantizer row := by
  have hpositive : 0 < restoredNorm faiss quantizer row :=
    (show (0 : ℝ) < 1 / 10 ^ 12 by positivity).trans hdirection.1
  have hnorm : 0 ≤ centeredNorm faiss quantizer row := centeredNorm_nonneg row
  unfold trueScale
  split
  · positivity
  · positivity

theorem encodeRow_norm (row : List ℝ) :
    (quantizer.encodeRow exactNumerics faiss row).2.norm =
      quantizeLinear exactNumerics (centeredNorm faiss quantizer row) quantizer.normMax
        quantizer.normStep := by
  unfold RecastQuantizer.encodeRow
  dsimp only
  split <;> rfl

theorem encodeRow_scale (hdirection : HasDirection faiss quantizer row) :
    (quantizer.encodeRow exactNumerics faiss row).2.scale =
      quantizeLinear exactNumerics (trueScale faiss quantizer row) quantizer.scaleMax
        quantizer.scaleStep := by
  have hrestored := normalize_norm_eq hdirection.1
  unfold RecastQuantizer.encodeRow
  dsimp only
  rw [hrestored, if_pos ⟨hdirection.1, Decidable.not_or_of_imp hdirection.2⟩]
  rfl

theorem ne_sentinel {byte : UInt8} (h : byte.toNat ≤ 254) : byte ≠ 255 := by
  rintro rfl
  exact absurd h (by decide)

/-- Re-encoding the training set of a completed call keeps every row in range. -/
theorem training_rows_in_range
    (htrain : quantizer.train exactNumerics faiss rows = (quantizer', none)) :
    quantizer'.encode exactNumerics faiss rows =
        .ok (rows.map (quantizer'.encodeRow exactNumerics faiss)) ∧
      ∀ row ∈ rows,
        RowInRange faiss quantizer' row (quantizer'.encodeRow exactNumerics faiss row).2 := by
  obtain ⟨htrained, -, hnormStep, -, hscaleStep⟩ := RecastQuantizer.train_ranges htrain
  refine ⟨by rw [RecastQuantizer.encode, htrained, if_neg (by decide)], fun row hrow => ?_⟩
  generalize hmetadata : (quantizer'.encodeRow exactNumerics faiss row).2 = metadata
  have hfinite (value : ℝ) : exactNumerics.isFinite value = true := rfl
  obtain ⟨hnormCode, hnormClose⟩ := quantizeLinear_spec (hfinite _)
    (centeredNorm_nonneg row) (centeredNorm_le htrain hrow)
  rw [← hnormStep, ← encodeRow_norm, hmetadata] at hnormCode hnormClose
  have hscale (hdirection : HasDirection faiss quantizer' row) : metadata.scale.toNat ≤ 254 ∧
      |byteValue metadata.scale * quantizer'.scaleStep - trueScale faiss quantizer' row| ≤
        quantizer'.scaleStep / 2 := by
    have := quantizeLinear_spec (hfinite _) (trueScale_nonneg hdirection)
      (trueScale_le htrain hrow hdirection)
    rwa [← hscaleStep, ← encodeRow_scale hdirection, hmetadata] at this
  have hnormDecoded : (quantizer'.decodeMetadata metadata).norm =
      byteValue metadata.norm * quantizer'.normStep := if_neg (ne_sentinel hnormCode)
  constructor
  · exact hnormCode
  · rw [hnormDecoded]
    exact hnormClose
  · exact fun hdirection => (hscale hdirection).1
  · intro hdirection
    have hscaleDecoded : (quantizer'.decodeMetadata metadata).scale =
        byteValue metadata.scale * quantizer'.scaleStep := if_neg (ne_sentinel (hscale hdirection).1)
    rw [hscaleDecoded]
    exact (hscale hdirection).2
  · intro hdirection query inverseSqrtDimension dot
    have hoverflow : (quantizer'.decodeMetadata metadata).overflow = false := by
      simp [RecastQuantizer.decodeMetadata, ne_sentinel hnormCode,
        ne_sentinel (hscale hdirection).1]
    unfold scalarMetricValues
    rw [hoverflow]
    cases quantizer'.config.metric <;> rfl

end TrainingRows

/-- A row of the training set with its direction and scale. -/
theorem training_rows_in_range_plane :
    HasDirection planeFaiss planeQuantizer [3, 7] ∧
      trueScale planeFaiss planeQuantizer [3, 7] = 2 ∧
      RowInRange planeFaiss planeQuantizer [3, 7]
        (planeQuantizer.encodeRow exactNumerics planeFaiss [3, 7]).2 := by
  have hsplit : normalize exactNumerics planeFaiss (center planeQuantizer.mean [3, 7]) =
      ([0, 1], 2) := by
    have hcentered : center planeQuantizer.mean [3, 7] = [0, 2] := by
      norm_num [center, planeQuantizer]
    rw [hcentered, normalize_pair 2 (by norm_num) (by norm_num)]
    norm_num
  have hrestored : restoredNorm planeFaiss planeQuantizer [3, 7] = 1 := by
    have hrotated : planeQuantizer.transform planeFaiss [0, 1] = [1, 0] := apply_planeRotation 0 1
    rw [restoredNorm, hsplit, hrotated]
    exact reconstructionNorm_planePq List.mem_cons_self
  have hmember : [3, 7] ∈ planeRows :=
    List.mem_flatten.mpr ⟨_, List.mem_replicate.mpr ⟨by decide, rfl⟩, List.mem_cons_self⟩
  refine ⟨⟨?_, fun hcosine => (by cases hcosine)⟩, ?_,
    (training_rows_in_range planeStart_train).2 [3, 7] hmember⟩
  · rw [hrestored]
    norm_num [exactNumerics]
  · rw [trueScale, hrestored, if_neg (by decide), centeredNorm, hsplit]
    norm_num

end Recast
