import Recast.Uneven.Buckets
import Recast.Model.Quantizer

/-!
# What training leaves

A completed training call determines every learned part from its own rows. The
parts fit together: dimensions, presence of a transform, groups and codebooks.
-/

namespace Recast

open Foundation

section Shapes

variable {F K : Type}

/-- The size fields Faiss derives from `d`, `M` and the bits. -/
structure ProductQuantizer.Shaped (pq : ProductQuantizer F) (d M nbits : Nat) : Prop where
  hd : pq.d = d
  hM : pq.M = M
  hnbits : pq.nbits = nbits
  hksub : pq.ksub = 2 ^ nbits
  hcodeSize : pq.codeSize = (nbits * M + 7) / 8
  hcentroids : pq.centroids.length = d * 2 ^ nbits

/-- The sizes of what Faiss returns, as it documents them. -/
structure FaissShapes (faiss : Faiss F) : Prop where
  hcreate : ∀ d M nbits pq, faiss.createPq d M nbits = .ok pq → pq.Shaped d M nbits
  htrain : ∀ pq rows d M nbits, pq.Shaped d M nbits → (faiss.trainPq pq rows).1.Shaped d M nbits
  hpca : ∀ d balancedBins rows transform, faiss.trainPca d balancedBins rows = (transform, none) →
    transform.dIn = d ∧ transform.dOut = d ∧ transform.A.length = d * d ∧
      transform.isTrained = true
  hdecode : ∀ pq code, (faiss.decode pq code).length = pq.d

/-- A transform as training stores it. -/
structure LinearTransform.Learned [Zero F] (transform : LinearTransform F) (d : Nat) : Prop where
  hdIn : transform.dIn = d
  hdOut : transform.dOut = d
  hA : transform.A.length = d * d
  htrained : transform.isTrained = true
  horthonormal : transform.isOrthonormal = true
  hbias : ∀ value ∈ transform.b, value = 0

/-- A transform that a training call keeps: axes that Faiss found for rows of
length `d` and that are orthonormal, without their bias. -/
def LinearTransform.TrainedBy [Zero F] (faiss : Faiss F) (d : Nat) (transform : LinearTransform F) :
    Prop :=
  ∃ balancedBins rows axes, (∀ row ∈ rows, row.length = d) ∧
    faiss.trainPca d balancedBins rows = (axes, none) ∧ axes.isOrthonormal = true ∧
    transform = { axes with b := axes.b.map fun _ => 0 }

theorem LinearTransform.TrainedBy.learned [Zero F] {faiss : Faiss F} (hfaiss : FaissShapes faiss)
    {d : Nat} {transform : LinearTransform F} (h : transform.TrainedBy faiss d) :
    transform.Learned d := by
  obtain ⟨bins, rows, axes, -, hpca, horthonormal, rfl⟩ := h
  obtain ⟨hdIn, hdOut, hA, htrained⟩ := hfaiss.hpca _ _ _ _ hpca
  exact ⟨hdIn, hdOut, hA, htrained, horthonormal, by simp⟩

/-- The constructor `ProductQuantizer`. -/
def newPq [Zero F] (d M nbits : Nat) : Except ModelError (ProductQuantizer F) :=
  if M = 0 ∨ d % M ≠ 0 then
    .error (.faiss "The dimension of the vector (d) should be a multiple of the number of subquantizers (M)")
  else .ok ⟨d, M, nbits, 2 ^ nbits, (nbits * M + 7) / 8, List.replicate (d * 2 ^ nbits) 0⟩

/-- k-means with as many vectors as centroids copies the vectors. -/
def copyVectors [Zero F] (pq : ProductQuantizer F) (rows : List (List F)) :
    ProductQuantizer F × Option ModelError :=
  if rows.length < pq.ksub then
    (pq, some (.faiss "Number of training points should be at least as large as number of clusters"))
  else
    let dsub := pq.d / pq.M
    ({ pq with
        centroids := (List.range (pq.d * 2 ^ pq.nbits)).map fun i =>
          (rows.getD (i / dsub % 2 ^ pq.nbits) []).getD
            (i / (dsub * 2 ^ pq.nbits) * dsub + i % dsub) 0 }, none)

/-- The principal axes of vectors along the axes of the plane that reach further
along the second one: the two coordinates in swapped order. -/
def planarPca [Zero F] [One F] (d _balancedBins : Nat) (_rows : List (List F)) :
    LinearTransform F × Option ModelError :=
  (⟨d, d, true, d == 2, (List.range (d * d)).map fun k => if k / d + k % d = 1 then 1 else 0,
    List.replicate d 0⟩, none)

theorem planar_shapes [Zero F] [One F] {faiss : Faiss F} (hcreate : faiss.createPq = newPq)
    (htrain : faiss.trainPq = copyVectors) (hpca : faiss.trainPca = planarPca)
    (hdecode : ∀ pq code, (faiss.decode pq code).length = pq.d) : FaissShapes faiss where
  hcreate d M nbits pq h := by
    rw [hcreate, newPq, guard_eq_ok] at h
    cases h.2
    exact ⟨rfl, rfl, rfl, rfl, rfl, List.length_replicate⟩
  htrain pq rows d M nbits h := by
    rw [htrain, copyVectors]
    split
    · exact h
    · exact { h with hcentroids := by simp [h.hd, h.hnbits] }
  hpca d bins rows transform h := by
    rw [hpca] at h
    cases h
    simp
  hdecode := hdecode

end Shapes

section Uneven

variable {F K : Type}

theorem createBuckets_spec {faiss : Faiss F} (hfaiss : FaissShapes faiss) {layouts : List Bucket}
    {buckets : List (CodedBucket F)} (h : createBuckets faiss layouts = .ok buckets) :
    buckets.map CodedBucket.layout = layouts ∧
      ∀ bucket ∈ buckets,
        bucket.pq.Shaped bucket.layout.bucketDimension bucket.layout.subspaceCount nbits := by
  induction layouts generalizing buckets with
  | nil =>
      cases h
      exact ⟨rfl, by simp⟩
  | cons layout rest ih =>
      simp only [createBuckets, bind_eq_ok] at h
      obtain ⟨pq, hpq, restBuckets, hrest, h⟩ := h
      cases h
      obtain ⟨hlayouts, hshaped⟩ := ih hrest
      refine ⟨by rw [List.map_cons, hlayouts], ?_⟩
      intro bucket hbucket
      cases hbucket with
      | head => exact hfaiss.hcreate _ _ _ _ hpq
      | tail _ hbucket => exact hshaped bucket hbucket

variable [Zero F]
variable [Zero K] [One K] [Add K] [Sub K] [Mul K] [Div K] [Neg K] [NatCast K]
variable [LT K] [DecidableLT K] [LE K] [DecidableLE K] [BEq K]

/-- An uneven quantizer as a completed training call leaves it. -/
structure UnevenProductQuantizer.Learned (quantizer : UnevenProductQuantizer F K) : Prop where
  htrained : quantizer.isTrained = true
  hgroups : quantizer.subspaceDimensions.length = quantizer.shape.M
  hnonempty : ∀ group ∈ quantizer.subspaceDimensions, group ≠ []
  hpartition : quantizer.subspaceDimensions.flatten.Perm (List.range quantizer.shape.d)
  hbuild : buildBuckets quantizer.shape quantizer.subspaceDimensions =
    .ok (quantizer.buckets.map CodedBucket.layout)
  hpq : ∀ bucket ∈ quantizer.buckets,
    bucket.pq.Shaped bucket.layout.bucketDimension bucket.layout.subspaceCount nbits
  hbudgets : quantizer.idealBitBudgets.length = quantizer.shape.d
  hloads : quantizer.groupBitLoads.length = quantizer.shape.M
  hconsistent : loadsConsistent quantizer.subspaceDimensions quantizer.idealBitBudgets
    quantizer.groupBitLoads = true

theorem trainBuckets_spec {faiss : Faiss F} (hfaiss : FaissShapes faiss) (rows : List (List F))
    {buckets : List (CodedBucket F)}
    (hshaped : ∀ bucket ∈ buckets,
      bucket.pq.Shaped bucket.layout.bucketDimension bucket.layout.subspaceCount nbits) :
    (trainBuckets faiss rows buckets).1.map CodedBucket.layout =
        buckets.map CodedBucket.layout ∧
      ∀ bucket ∈ (trainBuckets faiss rows buckets).1,
        bucket.pq.Shaped bucket.layout.bucketDimension bucket.layout.subspaceCount nbits := by
  induction buckets with
  | nil => exact ⟨rfl, by simp [trainBuckets]⟩
  | cons bucket rest ih =>
      obtain ⟨hbucket, hrest⟩ := List.forall_mem_cons.mp hshaped
      have htrain := hfaiss.htrain bucket.pq (rows.map (gather bucket.layout)) _ _ _ hbucket
      obtain ⟨hlayouts, hshapes⟩ := ih hrest
      rw [trainBuckets]
      split
      · next heq =>
          rw [heq] at htrain
          exact ⟨rfl, List.forall_mem_cons.mpr ⟨htrain, hrest⟩⟩
      · next heq =>
          rw [heq] at htrain
          exact ⟨by rw [List.map_cons, List.map_cons, hlayouts],
            List.forall_mem_cons.mpr ⟨htrain, hshapes⟩⟩

/-- Training never changes the shape or the flags. -/
theorem UnevenProductQuantizer.train_frame (numerics : Numerics F K) (faiss : Faiss F)
    (rows : List (List F)) (quantizer : UnevenProductQuantizer F K) :
    (quantizer.train numerics faiss rows).1.shape = quantizer.shape ∧
      (quantizer.train numerics faiss rows).1.reportLayoutAfterTraining =
        quantizer.reportLayoutAfterTraining ∧
      (quantizer.train numerics faiss rows).1.verbose = quantizer.verbose := by
  generalize hresult : quantizer.train numerics faiss rows = result
  simp only [UnevenProductQuantizer.train] at hresult
  repeat' split at hresult
  all_goals
    subst hresult
    exact ⟨rfl, rfl, rfl⟩

/-- A completed training call leaves a consistent uneven quantizer. -/
theorem UnevenProductQuantizer.train_learned {numerics : Numerics F K} {faiss : Faiss F}
    (hfaiss : FaissShapes faiss) {rows : List (List F)}
    {quantizer quantizer' : UnevenProductQuantizer F K}
    (hadmits : quantizer.shape.Admits)
    (h : quantizer.train numerics faiss rows = (quantizer', none)) : quantizer'.Learned := by
  unfold UnevenProductQuantizer.train at h
  cases hbudgets : computeIdealBitBudgets numerics quantizer.shape rows with
  | error error => simp [hbudgets] at h
  | ok bitBudgets =>
      -- the planner and the assignment never throw on accepted shapes
      have hlength := length_computeIdealBitBudgets hbudgets
      obtain ⟨pairedCapacities, hplan, hprofile⟩ :=
        planPairedCapacities_ok hadmits hlength
      obtain ⟨placed, -, -, hassign, hfilled⟩ :=
        assignDimensions_ok quantizer.shape hprofile.hlength hprofile.hsum hlength
      obtain ⟨hgroups, layouts, hbuild, -⟩ := hfilled.buildBuckets hprofile
      simp only [hbudgets, hplan, hassign, hbuild] at h
      split at h
      · simp at h
      next buckets hbuckets =>
      obtain ⟨hlayouts, hshaped⟩ := createBuckets_spec hfaiss hbuckets
      obtain ⟨hlayouts', hshaped'⟩ := trainBuckets_spec hfaiss rows hshaped
      split at h
      · simp at h
      next trained htrained =>
      rw [htrained] at hlayouts' hshaped'
      split at h
      · simp at h
      next hcheck =>
      simp only [Prod.mk.injEq, and_true] at h
      subst h
      -- the self-checks at the end give the last two fields
      unfold checkDiagnostics at hcheck
      split at hcheck
      · cases hcheck
      next hcount =>
      split at hcheck
      · cases hcheck
      split at hcheck
      · cases hcheck
      next hconsistent =>
      refine ⟨rfl, hgroups, ?_, hfilled.hpartition, ?_, hshaped', hlength, not_not.mp hcount, ?_⟩
      · intro group hgroup hempty
        have hwidth : group.length ∈ sortedCapacities pairedCapacities := by
          rw [← hfilled.hwidths]
          exact List.mem_map_of_mem hgroup
        have := hprofile.hpositive _ (mem_sortedCapacities.mp hwidth)
        rw [hempty] at this
        cases this
      · rw [hlayouts', hlayouts]
        exact hbuild
      · simpa using hconsistent

end Uneven

section Quantizer

variable {F K : Type} {numerics : Numerics F K} {faiss : Faiss F}

/-- The direction codec is the one the configuration asks for, in its size. -/
def DirectionQuantizer.Formed (config : QuantizerConfig) : DirectionQuantizer F K → Prop
  | .uniform pq =>
      config.grouping = .uniform ∧ pq.Shaped config.dimension config.subquantizers nbits
  | .uneven quantizer =>
      config.grouping = .uneven ∧ quantizer.shape.d = config.dimension ∧
        quantizer.shape.M = config.subquantizers ∧ quantizer.shape.maxSubspaceDimension = 0 ∧
        quantizer.reportLayoutAfterTraining = false ∧ quantizer.verbose = false

/-- What holds of a quantizer in every state, trained or not. -/
structure RecastQuantizer.Formed (quantizer : RecastQuantizer F K) : Prop where
  hcheck : quantizer.config.check = .ok ()
  htransform : quantizer.config.transform = .none → quantizer.rotation = none
  hdirection : quantizer.direction.Formed quantizer.config

theorem length_center [Sub F] {mean row : List F} {d : Nat} (hmean : mean.length = d)
    (hrow : row.length = d) : (center mean row).length = d := by
  rw [center, List.length_zipWith, hmean, hrow, Nat.min_self]

theorem length_learnMean [Zero F] [One F] [Add F] [Mul F] [Div F] [NatCast F]
    (config : QuantizerConfig) (rows : List (List F)) :
    (learnMean config rows).length = config.dimension := by
  unfold learnMean
  split
  · exact List.length_replicate
  · simp

variable [Zero F]

theorem RecastQuantizer.create_formed [One F] [Zero K] (hfaiss : FaissShapes faiss)
    {config : QuantizerConfig} {quantizer : RecastQuantizer F K}
    (h : RecastQuantizer.create faiss config = .ok quantizer) :
    quantizer.Formed := by
  simp only [RecastQuantizer.create, bind_eq_ok] at h
  obtain ⟨_, hcheck, direction, hdirection, h⟩ := h
  cases h
  refine ⟨hcheck, fun _ => rfl, ?_⟩
  unfold createDirection at hdirection
  cases hgrouping : config.grouping with
  | uniform =>
      simp only [hgrouping, bind_eq_ok] at hdirection
      obtain ⟨pq, hpq, hdirection⟩ := hdirection
      cases hdirection
      exact ⟨hgrouping, hfaiss.hcreate _ _ _ _ hpq⟩
  | uneven =>
      simp only [hgrouping, bind_eq_ok] at hdirection
      obtain ⟨shape, hshape, hdirection⟩ := hdirection
      cases hdirection
      unfold UnevenShape.create at hshape
      split at hshape
      · cases hshape
      split at hshape
      · cases hshape
      split at hshape
      · cases hshape
      split at hshape
      · cases hshape
      split at hshape
      · cases hshape
      cases hshape
      exact ⟨hgrouping, rfl, rfl, rfl, rfl, rfl⟩

/-- Learning the transform touches the transform only. -/
theorem RecastQuantizer.trainTransform_frame (faiss : Faiss F) (quantizer : RecastQuantizer F K)
    (centered : List (List F)) :
    ∃ rotation,
      (quantizer.trainTransform faiss centered).1 = { quantizer with rotation := rotation } ∧
        (quantizer.config.transform = .none → quantizer.rotation = none → rotation = none) := by
  cases hlearned : quantizer.learnRotation faiss centered with
  | mk rotation error =>
      have hnone : quantizer.config.transform = .none → quantizer.rotation = none →
          rotation = none := by
        intro htransform hrotation
        simp only [learnRotation, htransform, Prod.mk.injEq] at hlearned
        exact hlearned.1.symm.trans hrotation
      unfold trainTransform
      rw [hlearned]
      cases error with
      | some error => exact ⟨rotation, rfl, hnone⟩
      | none =>
          cases rotation with
          | none => exact ⟨none, rfl, fun _ _ => rfl⟩
          | some rotation =>
              have himpossible (h₁ : quantizer.config.transform = .none)
                  (h₂ : quantizer.rotation = none) : False := by
                cases hnone h₁ h₂
              simp only
              split
              · exact ⟨_, rfl, fun h₁ h₂ => (himpossible h₁ h₂).elim⟩
              · exact ⟨_, rfl, fun h₁ h₂ => (himpossible h₁ h₂).elim⟩

/-- A completed stage 2 leaves the transform the configuration asks for, as it
was trained on the centered rows. -/
theorem RecastQuantizer.trainTransform_trained {quantizer quantizer' : RecastQuantizer F K}
    {centered : List (List F)} (htransform : quantizer.config.transform ≠ .none)
    (h : quantizer.trainTransform faiss centered = (quantizer', none)) :
    ∃ bins axes, faiss.trainPca quantizer.config.dimension bins centered = (axes, none) ∧
      axes.isOrthonormal = true ∧
      quantizer'.rotation = some { axes with b := axes.b.map fun _ => 0 } := by
  unfold trainTransform at h
  cases hlearned : quantizer.learnRotation faiss centered with
  | mk rotation error =>
      rw [hlearned] at h
      cases error with
      | some error => simp at h
      | none =>
          obtain ⟨rotation, rfl, bins, hpca⟩ : ∃ t, rotation = some t ∧
              ∃ bins, faiss.trainPca quantizer.config.dimension bins centered = (t, none) := by
            simp only [learnRotation] at hlearned
            split at hlearned
            · next hnone => exact absurd hnone htransform
            · next =>
                rw [Prod.mk.injEq] at hlearned
                exact ⟨_, hlearned.1.symm, 0, Prod.ext rfl hlearned.2⟩
            · next =>
                rcases hpca : faiss.trainPca quantizer.config.dimension
                  quantizer.config.subquantizers centered with ⟨t, e⟩
                rw [hpca] at hlearned
                cases e with
                | some e => simp at hlearned
                | none =>
                    simp only [Prod.mk.injEq, and_true] at hlearned
                    exact ⟨t, hlearned.symm, _, hpca⟩
          simp only at h
          split at h
          · simp at h
          next horthonormal =>
          simp only [Prod.mk.injEq, and_true] at h
          subst h
          exact ⟨bins, rotation, hpca, by simpa using horthonormal, rfl⟩

theorem RecastQuantizer.trainTransform_learned (hfaiss : FaissShapes faiss)
    {quantizer quantizer' : RecastQuantizer F K} {centered : List (List F)}
    (htransform : quantizer.config.transform ≠ .none)
    (h : quantizer.trainTransform faiss centered = (quantizer', none)) :
    ∃ rotation, quantizer'.rotation = some rotation ∧
      rotation.Learned quantizer.config.dimension := by
  obtain ⟨bins, axes, hpca, horthonormal, hrotation⟩ :=
    RecastQuantizer.trainTransform_trained htransform h
  obtain ⟨hdIn, hdOut, hA, htrained⟩ := hfaiss.hpca _ _ _ _ hpca
  exact ⟨_, hrotation, hdIn, hdOut, hA, htrained, horthonormal, by simp⟩

variable [Zero K] [One K] [Add K] [Sub K] [Mul K] [Div K] [Neg K] [NatCast K]
variable [LT K] [DecidableLT K] [LE K] [DecidableLE K] [BEq K]

theorem DirectionQuantizer.train_formed (numerics : Numerics F K) (hfaiss : FaissShapes faiss)
    {config : QuantizerConfig} {direction : DirectionQuantizer F K}
    (hformed : direction.Formed config) (rows : List (List F)) :
    (direction.train numerics faiss rows).1.Formed config := by
  cases direction with
  | uniform pq => exact ⟨hformed.1, hfaiss.htrain _ _ _ _ _ hformed.2⟩
  | uneven quantizer =>
      obtain ⟨hshape, hreport, hverbose⟩ := quantizer.train_frame numerics faiss rows
      obtain ⟨hgrouping, hd, hM, hmaximum, hreport₀, hverbose₀⟩ := hformed
      rcases htrain : quantizer.train numerics faiss rows with ⟨quantizer', error⟩
      rw [htrain] at hshape hreport hverbose
      simp only [DirectionQuantizer.train, htrain]
      refine ⟨hgrouping, ?_⟩
      rw [hshape, hreport, hverbose]
      exact ⟨hd, hM, hmaximum, hreport₀, hverbose₀⟩

theorem DirectionQuantizer.train_learned (hfaiss : FaissShapes faiss) {config : QuantizerConfig}
    {direction direction' : DirectionQuantizer F K} {rows : List (List F)}
    (hformed : direction.Formed config)
    (h : direction.train numerics faiss rows = (direction', none)) :
    ∀ uneven, direction' = .uneven uneven → uneven.Learned := by
  intro uneven huneven
  subst huneven
  cases direction with
  | uniform pq => simp [DirectionQuantizer.train] at h
  | uneven quantizer =>
      rcases htrain : quantizer.train numerics faiss rows with ⟨trained, error⟩
      simp only [DirectionQuantizer.train, htrain, Prod.mk.injEq,
        DirectionQuantizer.uneven.injEq] at h
      obtain ⟨rfl, rfl⟩ := h
      exact UnevenProductQuantizer.train_learned hfaiss (.inl hformed.2.2.2.1) htrain

variable [One F] [Add F] [Sub F] [Mul F] [Div F] [NatCast F]
variable [LT F] [DecidableLT F] [LE F] [DecidableLE F]

/-- Every training call, completed or not, keeps the configuration and the form. -/
theorem RecastQuantizer.train_formed (numerics : Numerics F K) (hfaiss : FaissShapes faiss)
    {quantizer : RecastQuantizer F K} (hformed : quantizer.Formed) (rows : List (List F)) :
    (quantizer.train numerics faiss rows).1.Formed ∧
      (quantizer.train numerics faiss rows).1.config = quantizer.config := by
  unfold RecastQuantizer.train
  split
  · exact ⟨hformed, rfl⟩
  dsimp only
  generalize hstart : ({ quantizer with
    mean := learnMean quantizer.config rows
    normMax := largestNorm ((splitRows numerics faiss (learnMean quantizer.config rows) rows).map
      Prod.snd) } : RecastQuantizer F K) = start
  have hconfig : start.config = quantizer.config := by rw [← hstart]
  have hstartFormed : start.Formed := by
    rw [← hstart]
    exact ⟨hformed.hcheck, hformed.htransform, hformed.hdirection⟩
  obtain ⟨rotation, hframe, hnone⟩ := start.trainTransform_frame faiss
    (rows.map (center (learnMean quantizer.config rows)))
  have hnone' : start.config.transform = .none → rotation = none :=
    fun htransform => hnone htransform (hstartFormed.htransform htransform)
  rcases htransform : start.trainTransform faiss
    (rows.map (center (learnMean quantizer.config rows))) with ⟨rotated, error⟩
  rw [htransform] at hframe
  dsimp only at hframe
  subst hframe
  cases error with
  | some error => exact ⟨⟨hstartFormed.hcheck, hnone', hstartFormed.hdirection⟩, hconfig⟩
  | none =>
      dsimp only
      split
      · next direction error heq =>
          have htrained := DirectionQuantizer.train_formed numerics hfaiss
            hstartFormed.hdirection (((splitRows numerics faiss (learnMean quantizer.config rows)
              rows).map Prod.fst).map ({ start with rotation := rotation }.transform faiss))
          rw [heq] at htrained
          exact ⟨⟨hstartFormed.hcheck, hnone', htrained⟩, hconfig⟩
      · next direction heq =>
          have htrained := DirectionQuantizer.train_formed numerics hfaiss
            hstartFormed.hdirection (((splitRows numerics faiss (learnMean quantizer.config rows)
              rows).map Prod.fst).map ({ start with rotation := rotation }.transform faiss))
          rw [heq] at htrained
          exact ⟨⟨hstartFormed.hcheck, hnone', htrained⟩, hconfig⟩

theorem TrainRun.formed (hfaiss : FaissShapes faiss) {quantizer : RecastQuantizer F K}
    (hrun : TrainRun numerics faiss quantizer) : quantizer.Formed := by
  induction hrun with
  | create hcreate => exact RecastQuantizer.create_formed hfaiss hcreate
  | train hrun rows ih => exact (RecastQuantizer.train_formed numerics hfaiss ih rows).1

/-- A quantizer as a completed training call leaves it. -/
structure RecastQuantizer.Learned (numerics : Numerics F K) (faiss : Faiss F)
    (quantizer : RecastQuantizer F K) : Prop extends quantizer.Formed where
  htrained : quantizer.trained = true
  hmean : quantizer.mean.length = quantizer.config.dimension
  hcentering : quantizer.config.centering = .none →
    quantizer.mean = List.replicate quantizer.config.dimension 0
  hrotation : ∀ rotation ∈ quantizer.rotation, rotation.Learned quantizer.config.dimension
  hpresence : quantizer.config.transform ≠ .none → quantizer.rotation.isSome
  huneven : ∀ uneven, quantizer.direction = .uneven uneven → uneven.Learned
  hranges : ∃ (vectors transformed : List (List F)),
    quantizer.normMax = largestNorm (vectors.map fun vector => (normalize numerics faiss vector).2) ∧
      quantizer.scaleMax = largestScale numerics faiss quantizer.config.metric quantizer.direction
        (vectors.map fun vector => (normalize numerics faiss vector).2) transformed
  hnormStep : quantizer.normStep = stepOf quantizer.normMax
  hscaleStep : quantizer.scaleStep = stepOf quantizer.scaleMax

/-- A completed training call determines every learned part. -/
theorem RecastQuantizer.train_learned (hfaiss : FaissShapes faiss)
    {quantizer quantizer' : RecastQuantizer F K} (hformed : quantizer.Formed)
    {rows : List (List F)} (h : quantizer.train numerics faiss rows = (quantizer', none)) :
    quantizer'.Learned numerics faiss := by
  have hformed' := (RecastQuantizer.train_formed numerics hfaiss hformed rows).1
  rw [h] at hformed'
  unfold RecastQuantizer.train at h
  split at h
  · simp at h
  dsimp only at h
  generalize hstart : ({ quantizer with
    mean := learnMean quantizer.config rows
    normMax := largestNorm ((splitRows numerics faiss (learnMean quantizer.config rows) rows).map
      Prod.snd) } : RecastQuantizer F K) = start at h
  have hnorms : (splitRows numerics faiss (learnMean quantizer.config rows) rows).map Prod.snd =
      (rows.map (center (learnMean quantizer.config rows))).map fun vector =>
        (normalize numerics faiss vector).2 := by
    simp [splitRows]
  have hstartFormed : start.Formed := by
    rw [← hstart]
    exact ⟨hformed.hcheck, hformed.htransform, hformed.hdirection⟩
  obtain ⟨rotation, hframe, hnone⟩ := start.trainTransform_frame faiss
    (rows.map (center (learnMean quantizer.config rows)))
  rcases htransform : start.trainTransform faiss
    (rows.map (center (learnMean quantizer.config rows))) with ⟨rotated, error⟩
  rw [htransform] at hframe h
  cases error with
  | some error => simp at h
  | none =>
      dsimp only at hframe h
      subst hframe
      split at h
      · simp at h
      next direction heq =>
      have huneven := DirectionQuantizer.train_learned hfaiss hstartFormed.hdirection heq
      simp only [Prod.mk.injEq, and_true] at h
      subst h
      have hrotation : start.config.transform ≠ .none →
          ∃ t, rotation = some t ∧ t.Learned start.config.dimension := by
        intro hsome
        obtain ⟨t, ht, hlearned⟩ := start.trainTransform_learned hfaiss hsome htransform
        exact ⟨t, ht, hlearned⟩
      refine ⟨hformed', rfl, ?_, ?_, ?_, ?_, huneven, ?_, rfl, rfl⟩
      · rw [← hstart]
        exact length_learnMean _ _
      · rw [← hstart]
        intro hcentering
        dsimp only at hcentering ⊢
        rw [learnMean, hcentering]
      · intro t ht
        dsimp only at ht
        by_cases hconfig : start.config.transform = .none
        · rw [hnone hconfig (hstartFormed.htransform hconfig)] at ht
          cases ht
        · obtain ⟨t', ht', hlearned⟩ := hrotation hconfig
          rw [ht'] at ht
          cases ht
          exact hlearned
      · intro hconfig
        obtain ⟨t, ht, -⟩ := hrotation hconfig
        dsimp only
        rw [ht]
        rfl
      · refine ⟨rows.map (center (learnMean quantizer.config rows)),
          ((splitRows numerics faiss (learnMean quantizer.config rows) rows).map Prod.fst).map
            ({ start with rotation := rotation }.transform faiss), ?_, ?_⟩
        · rw [← hstart, ← hnorms]
        · rw [← hnorms]

theorem Completed.learned (hfaiss : FaissShapes faiss) {quantizer : RecastQuantizer F K}
    (hcompleted : Completed numerics faiss quantizer) : quantizer.Learned numerics faiss := by
  obtain ⟨hrun, rows, -, htrain⟩ := hcompleted
  exact RecastQuantizer.train_learned hfaiss (hrun.formed hfaiss) htrain

/-- A completed training call leaves the transform of its own centered rows, or
none when the configuration asks for none. -/
theorem Completed.trainedBy (hfaiss : FaissShapes faiss) {quantizer : RecastQuantizer F K}
    (hcompleted : Completed numerics faiss quantizer) :
    ∀ rotation ∈ quantizer.rotation, rotation.TrainedBy faiss quantizer.config.dimension := by
  have hformed := (hcompleted.learned hfaiss).toFormed
  obtain ⟨hrun, rows, hrows, h⟩ := hcompleted
  rename_i start
  have hconfig := (RecastQuantizer.train_formed numerics hfaiss (hrun.formed hfaiss) rows).2
  rw [h] at hconfig
  dsimp only at hconfig
  unfold RecastQuantizer.train at h
  split at h
  · simp at h
  dsimp only at h
  split at h
  · simp at h
  next rotated htransform =>
  split at h
  · simp at h
  next direction hdirection =>
  simp only [Prod.mk.injEq, and_true] at h
  subst h
  intro rotation hrotation
  dsimp only at hrotation hconfig hformed ⊢
  by_cases hnone : rotated.config.transform = .none
  · rw [hformed.htransform hnone] at hrotation
    cases hrotation
  · rw [hconfig] at hnone ⊢
    have hstage := fun hsome => RecastQuantizer.trainTransform_trained hsome htransform
    obtain ⟨bins, axes, hpca, horthonormal, hkept⟩ := hstage hnone
    rw [hkept] at hrotation
    cases hrotation
    refine ⟨bins, _, axes, fun row hrow => ?_, hpca, horthonormal, rfl⟩
    obtain ⟨input, hinput, rfl⟩ := List.mem_map.mp hrow
    exact length_center (length_learnMean _ rows) (hrows input hinput)

end Quantizer

end Recast
