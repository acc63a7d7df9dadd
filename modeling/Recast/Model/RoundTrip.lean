import Recast.Model.Trained
import Recast.Model.Persistence
import Recast.Foundation.FloatBits

/-!
# Reading back what was written

Every part of a payload is read back to the part it was written from, under the
bounds the reader checks. What those bounds ask of the quantizer, training has
established.
-/

namespace Recast

open Foundation Foundation.Reader

/-! ## Scalars and vectors -/

theorem reads_scalar {width n : Nat} (h : n < 256 ^ width) :
    Reads (readScalar width) (toLittleEndian width n) n :=
  reads_number _ h

theorem reads_size {value maximum : Nat} (name : String) (hvalue : value ≤ maximum)
    (hmaximum : maximum ≤ sizeMax) :
    Reads (readSize maximum name) (toLittleEndian 8 value) value := by
  have hsize : value < 256 ^ 8 := by
    have : sizeMax < 256 ^ 8 := by decide
    omega
  refine Reads.finish (reads_scalar hsize) ?_
  exact Reads.guard (by omega) (reads_pure value)

theorem reads_vector {α : Type} {element : ModelReader α} {encode : α → List UInt8}
    {values : List α} {maximum : Nat} (name : String)
    (helement : ∀ value ∈ values, Reads element (encode value) value)
    (hlength : values.length ≤ maximum) (hmaximum : maximum ≤ sizeMax) :
    Reads (readVector element maximum name) (writeVector encode values) values :=
  Reads.bind (reads_size name hlength hmaximum) (Reads.many helement)

theorem reads_float (value : Float32) : Reads readFloat (encodeFloat value) value := by
  have hscalar := reads_scalar (show value.toBits.toNat < 256 ^ 4 from value.toBits.toNat_lt)
  have hread := hscalar.map fun n => Float32.ofBits (UInt32.ofNat n)
  rwa [UInt32.ofNat_toNat, float32_ofBits_toBits] at hread

theorem reads_double (value : Float) : Reads readDouble (encodeDouble value) value := by
  have hscalar := reads_scalar (show value.toBits.toNat < 256 ^ 8 from value.toBits.toNat_lt)
  have hread := hscalar.map fun n => Float.ofBits (UInt64.ofNat n)
  rwa [UInt64.ofNat_toNat, float_ofBits_toBits] at hread

theorem reads_flag (flag : Bool) :
    Reads (readScalar 1) (encodeFlag flag) (if flag then 1 else 0) := by
  refine reads_scalar ?_
  split <;> decide

/-! ## The uneven product quantizer -/

theorem checked_dimensions {d : Nat} (hd : d ≤ sizeMax) {group : List Nat}
    (hrange : ∀ x ∈ group, x < d) :
    (group.mapM fun dimension =>
      if dimension > d - 1 ∨ dimension > sizeMax then
        Except.error (ModelError.runtime ("invalid persisted " ++ "group dimension index"))
      else .ok dimension) = .ok group := by
  refine (mapM_ok_of_forall (g := id) fun x hx => ?_).trans (by rw [List.map_id])
  have := hrange x hx
  exact if_neg (by omega)

/-- The groups, after any number of dimensions read before. -/
theorem reads_groups {d : Nat} (hd : d ≤ sizeMax) {groups : List (List Nat)} {total : Nat}
    (hgroups : ∀ group ∈ groups, group ≠ [] ∧ ∀ x ∈ group, x < d)
    (htotal : total + groups.flatten.length ≤ d) :
    Reads (readGroups d groups.length total) (groups.flatMap (writeVector (toLittleEndian 8)))
      (groups, total + groups.flatten.length) := by
  induction groups generalizing total with
  | nil => exact reads_pure ([], total)
  | cons group groups ih =>
      obtain ⟨⟨hnonempty, hrange⟩, hrest⟩ := List.forall_mem_cons.mp hgroups
      rw [List.flatten_cons, List.length_append] at htotal ⊢
      have hsize : sizeMax < 256 ^ 8 := by decide
      have hvector := reads_vector "group dimension list"
        (fun x hx => reads_scalar (show x < 256 ^ 8 by have := hrange x hx; omega))
        (show group.length ≤ d by omega) hd
      rw [List.length_cons, readGroups, List.flatMap_cons]
      refine Reads.bind hvector (Reads.skip (reads_ofExcept (checked_dimensions hd hrange)) ?_)
      refine Reads.guard (not_or.mpr ⟨hnonempty, by omega⟩) ?_
      rw [← Nat.add_assoc]
      exact Reads.finish (ih hrest (by omega)) (reads_pure _)

/-- What the reader asks of the record of a bucket. -/
structure Bucket.Bounded (layout : Bucket) (d M : Nat) : Prop where
  hdimension : layout.subspaceDimension ≤ d
  hcount : layout.subspaceCount ≤ M
  hfirst : layout.firstSubspace ≤ M
  hoffset : layout.codeOffset ≤ M / 2
  hwidth : layout.bucketDimension ≤ d
  hcodeSize : 2 * layout.bucketCodeSize = layout.subspaceCount

theorem cutBuckets_bounds {first : Nat} {groups : List (List Nat)} {buckets : List Bucket}
    (h : cutBuckets first groups = .ok buckets) :
    buckets.length ≤ groups.length ∧ ∀ bucket ∈ buckets,
      (∃ group ∈ groups, bucket.subspaceDimension = group.length) ∧
        bucket.firstSubspace + bucket.subspaceCount ≤ first + groups.length ∧
        bucket.codeOffset = bucket.firstSubspace / 2 ∧
        bucket.bucketDimension ≤ groups.flatten.length ∧
        2 * bucket.bucketCodeSize = bucket.subspaceCount := by
  induction hsize : groups.length using Nat.strong_induction_on
    generalizing groups first buckets with
  | _ size ih =>
  cases groups with
  | nil =>
      rw [cutBuckets] at h
      cases h
      simp
  | cons group rest =>
      rw [cutBuckets] at h
      have hsplit := List.takeWhile_append_dropWhile
        (p := fun other : List Nat => decide (other.length = group.length)) (l := rest)
      have hsublist := List.dropWhile_sublist
        (p := fun other : List Nat => decide (other.length = group.length)) (l := rest)
      have hwidth : ∀ other ∈ group :: rest.takeWhile
          (fun other => decide (other.length = group.length)), other.length = group.length :=
        List.forall_mem_cons.mpr ⟨rfl, fun other hother => by
          simpa using List.mem_takeWhile_imp hother⟩
      have hrun := length_flatten_of_width hwidth
      generalize rest.takeWhile (fun other => decide (other.length = group.length)) = run
        at h hsplit hrun
      generalize rest.dropWhile (fun other => decide (other.length = group.length)) = tail
        at h hsplit hsublist
      rw [guard_eq_ok, bind_eq_ok] at h
      obtain ⟨heven, later, hlater, h⟩ := h
      cases h
      have hcount := congrArg List.length hsplit
      have hflatten := congrArg (fun groups => (List.flatten groups).length) hsplit
      simp only [List.flatten_append, List.length_append] at hcount hflatten
      rw [List.flatten_cons, List.length_append] at hrun
      rw [List.length_cons] at hsize heven hlater
      obtain ⟨hlength, hbounds⟩ := ih tail.length (by omega) hlater rfl
      refine ⟨by rw [List.length_cons]; omega, List.forall_mem_cons.mpr ⟨?_, ?_⟩⟩
      · refine ⟨⟨group, List.mem_cons_self, rfl⟩, ?_, rfl, ?_, ?_⟩
        · simp only [bucketOf, List.length_cons]
          omega
        · simp only [bucketOf, List.flatten_cons, List.length_append]
          omega
        · simp only [bucketOf, List.length_cons]
          omega
      · intro bucket hbucket
        obtain ⟨⟨other, hother, hdimension⟩, hlast, hoffset, htotal, hcode⟩ :=
          hbounds bucket hbucket
        refine ⟨⟨other, .tail _ (hsublist.subset hother), hdimension⟩, by omega, hoffset, ?_, hcode⟩
        rw [List.flatten_cons, List.length_append]
        omega

theorem buildBuckets_bounds {shape : UnevenShape} {dimensions : List (List Nat)}
    {layouts : List Bucket} (hgroups : dimensions.length = shape.M)
    (hpartition : dimensions.flatten.Perm (List.range shape.d))
    (h : buildBuckets shape dimensions = .ok layouts) :
    validateLayout shape dimensions layouts = .ok () ∧ layouts.length ≤ shape.M ∧
      ∀ layout ∈ layouts, layout.Bounded shape.d shape.M := by
  rw [buildBuckets, bind_eq_ok] at h
  obtain ⟨buckets, hcut, h⟩ := h
  rw [bind_eq_ok] at h
  obtain ⟨_, hvalid, h⟩ := h
  cases h
  obtain ⟨hlength, hbounds⟩ := cutBuckets_bounds hcut
  refine ⟨hvalid, hgroups ▸ hlength, fun layout hlayout => ?_⟩
  obtain ⟨⟨group, hgroup, hdimension⟩, hcount, hoffset, hwidth, hcodeSize⟩ :=
    hbounds layout hlayout
  have htotal := hpartition.length_eq
  rw [List.length_range] at htotal
  have hle := (List.sublist_flatten_of_mem hgroup).length_le
  exact ⟨by omega, by omega, by omega, by omega, by omega, hcodeSize⟩

section Faiss

variable {faiss : Faiss Float32} {io : FaissIo}

/-- Faiss reads back the objects that training keeps: the transforms, with the
flag the reader recomputes, and the codebooks of sizes it constructs. -/
structure FaissIo.Inverts (io : FaissIo) (faiss : Faiss Float32) : Prop where
  htransform : ∀ transform d, d ≤ 2 ^ 20 → LinearTransform.TrainedBy faiss d transform →
    Reads io.readTransform (io.writeTransform transform) (.linear transform)
  hpq : ∀ pq created d M, d ≤ 2 ^ 20 → M ≤ 2 ^ 20 → faiss.createPq d M nbits = .ok created →
    ProductQuantizer.Shaped pq d M nbits → Reads io.readPq (io.writePq pq) pq

theorem createPq_of_createBuckets {layouts : List Bucket} {created : List (CodedBucket Float32)}
    (h : createBuckets faiss layouts = .ok created) :
    ∀ layout ∈ layouts, ∃ pq,
      faiss.createPq layout.bucketDimension layout.subspaceCount nbits = .ok pq := by
  induction layouts generalizing created with
  | nil => simp
  | cons layout rest ih =>
      simp only [createBuckets, bind_eq_ok] at h
      obtain ⟨pq, hpq, created, hrest, -⟩ := h
      exact List.forall_mem_cons.mpr ⟨⟨pq, hpq⟩, ih hrest⟩

theorem reads_bucket (hio : io.Inverts faiss) {d M : Nat} (hdimension : d ≤ 2 ^ 20) (hM : M ≤ d)
    {bucket : CodedBucket Float32} (hbounded : bucket.layout.Bounded d M)
    (hcreated : ∃ pq,
      faiss.createPq bucket.layout.bucketDimension bucket.layout.subspaceCount nbits = .ok pq)
    (hshaped : bucket.pq.Shaped bucket.layout.bucketDimension bucket.layout.subspaceCount nbits) :
    Reads (readBucket io d M (M / 2) bucket.layout) (writeBucket io bucket) bucket := by
  have hcodeSize := hbounded.hcodeSize
  have hd : d ≤ sizeMax := hdimension.trans (by decide)
  simp only [writeBucket, List.append_assoc]
  refine Reads.bind (reads_size _ hbounded.hdimension hd) ?_
  refine Reads.bind (reads_size _ hbounded.hcount (by omega)) ?_
  refine Reads.bind (reads_size _ hbounded.hfirst (by omega)) ?_
  refine Reads.bind (reads_size _ hbounded.hoffset (by omega)) ?_
  refine Reads.guard (by simp) ?_
  obtain ⟨created, hcreated⟩ := hcreated
  refine Reads.finish (hio.hpq _ _ _ _ (hbounded.hwidth.trans hdimension)
    (hbounded.hcount.trans (hM.trans hdimension)) hcreated hshaped) ?_
  refine Reads.guard ?_ (reads_pure _)
  rw [hshaped.hd, hshaped.hM, hshaped.hnbits, hshaped.hksub, hshaped.hcodeSize,
    hshaped.hcentroids]
  simp only [nbits, ne_eq, not_true_eq_false, false_or, or_false, not_not]
  omega

theorem reads_buckets (hio : io.Inverts faiss) {d M : Nat} (hd : d ≤ 2 ^ 20) (hM : M ≤ d)
    {buckets : List (CodedBucket Float32)}
    (hbounded : ∀ bucket ∈ buckets, bucket.layout.Bounded d M)
    (hcreated : ∀ bucket ∈ buckets, ∃ pq,
      faiss.createPq bucket.layout.bucketDimension bucket.layout.subspaceCount nbits = .ok pq)
    (hshaped : ∀ bucket ∈ buckets,
      bucket.pq.Shaped bucket.layout.bucketDimension bucket.layout.subspaceCount nbits) :
    Reads (readBuckets io d M (M / 2) (buckets.map CodedBucket.layout))
      (buckets.flatMap (writeBucket io)) buckets := by
  induction buckets with
  | nil => exact reads_pure []
  | cons bucket buckets ih =>
      obtain ⟨hbucket, hrest⟩ := List.forall_mem_cons.mp hbounded
      obtain ⟨hnew, hnews⟩ := List.forall_mem_cons.mp hcreated
      obtain ⟨hpq, hpqs⟩ := List.forall_mem_cons.mp hshaped
      rw [List.flatMap_cons, List.map_cons, readBuckets]
      exact Reads.bind (reads_bucket hio hd hM hbucket hnew hpq)
        (Reads.finish (ih hrest hnews hpqs) (reads_pure _))

theorem UnevenShape.create_eq (shape : UnevenShape) :
    UnevenShape.create shape.d shape.M nbits 0 =
      .ok { shape with maxSubspaceDimension := 0 } := by
  have hpositive := shape.hpositive
  have hle := shape.hle
  rw [UnevenShape.create, if_neg (by omega), dif_neg (by omega), if_neg (show ¬nbits ≠ 4 by decide),
    dif_neg (not_not.mpr shape.hevenGroups), dif_neg (not_not.mpr shape.hevenDimension)]

theorem reads_uneven (hio : io.Inverts faiss) {quantizer : UnevenProductQuantizer Float32 Float}
    (hlearned : quantizer.Learned) {created : List (CodedBucket Float32)}
    (hcreated : createBuckets faiss (quantizer.buckets.map CodedBucket.layout) = .ok created)
    (hdimension : quantizer.shape.d ≤ 2 ^ 20)
    (hmaximum : quantizer.shape.maxSubspaceDimension ≤ quantizer.shape.d) :
    writeUneven io quantizer = .ok (writeUnevenBytes io quantizer) ∧
      Reads (readUneven faiss io) (writeUnevenBytes io quantizer) quantizer := by
  obtain ⟨hvalid, hcount, hbounded⟩ :=
    buildBuckets_bounds hlearned.hgroups hlearned.hpartition hlearned.hbuild
  have hle := quantizer.shape.hle
  have hd : quantizer.shape.d ≤ sizeMax := hdimension.trans (by decide)
  have htotal := hlearned.hpartition.length_eq
  rw [List.length_range] at htotal
  have hgroups : ∀ group ∈ quantizer.subspaceDimensions,
      group ≠ [] ∧ ∀ x ∈ group, x < quantizer.shape.d := fun group hgroup =>
    ⟨hlearned.hnonempty group hgroup, fun x hx => List.mem_range.mp
      (hlearned.hpartition.mem_iff.mp (List.mem_flatten.mpr ⟨group, hgroup, hx⟩))⟩
  refine ⟨?_, ?_⟩
  · rw [writeUneven, hlearned.htrained, if_neg (by simp), hvalid]
    rfl
  simp only [writeUnevenBytes, List.append_assoc]
  refine Reads.bind (reads_scalar (by decide)) ?_
  refine Reads.guard (not_not.mpr rfl) ?_
  refine Reads.bind (reads_size _ hdimension (by decide)) ?_
  refine Reads.bind (reads_size _ hle hd) ?_
  refine Reads.bind (reads_size _ (by decide) (by decide)) ?_
  refine Reads.skip (reads_ofExcept quantizer.shape.create_eq) ?_
  refine Reads.bind (reads_size _ hmaximum hd) ?_
  refine Reads.bind (reads_flag _) ?_
  refine Reads.bind (reads_flag _) ?_
  refine Reads.bind (reads_size _ hlearned.hgroups.le (by omega)) ?_
  refine Reads.guard (not_not.mpr hlearned.hgroups) ?_
  refine Reads.bind (reads_groups hd hgroups (by omega)) ?_
  refine Reads.guard (by simp [htotal]) ?_
  refine Reads.bind (reads_vector _ (fun value _ => reads_double value) hlearned.hbudgets.le hd) ?_
  refine Reads.bind
    (reads_vector _ (fun value _ => reads_double value) hlearned.hloads.le (by omega)) ?_
  refine Reads.guard (by simp [hlearned.hbudgets, hlearned.hloads]) ?_
  refine Reads.skip (reads_ofExcept hlearned.hbuild) ?_
  refine Reads.skip (reads_ofExcept hcreated) ?_
  rw [List.length_map] at hcount
  refine Reads.bind (reads_size _ hcount (by omega)) ?_
  refine Reads.guard (by simp) ?_
  refine Reads.finish (reads_buckets hio hdimension hle ?_ ?_ hlearned.hpq) ?_
  · exact fun bucket hbucket => hbounded _ (List.mem_map_of_mem hbucket)
  · exact fun bucket hbucket =>
      createPq_of_createBuckets hcreated _ (List.mem_map_of_mem hbucket)
  refine Reads.skip (reads_ofExcept hvalid) ?_
  refine Reads.guard (by simp [hlearned.hconsistent]) ?_
  have hflag (flag : Bool) : ((if flag then 1 else 0 : Nat) != 0) = flag := by
    cases flag <;> rfl
  rw [hflag, hflag]
  obtain ⟨shape, report, verbose, trained, dimensions, budgets, loads, buckets⟩ := quantizer
  obtain rfl : trained = true := hlearned.htrained
  exact reads_pure _

/-! ## The quantizer -/

theorem grouping_code (mode : GroupingMode) :
    mode.code < 256 ^ 4 ∧ decodeGrouping mode.code = .ok mode := by
  cases mode <;> exact ⟨by decide, rfl⟩

theorem transform_code (mode : TransformMode) :
    mode.code < 256 ^ 4 ∧ decodeTransform mode.code = .ok mode := by
  cases mode <;> exact ⟨by decide, rfl⟩

theorem metric_code (metric : DistanceMetric) :
    metric.code < 256 ^ 4 ∧ decodeMetric metric.code = .ok metric := by
  cases metric <;> exact ⟨by decide, rfl⟩

theorem centering_code (mode : CenteringMode) :
    mode.code < 256 ^ 4 ∧ decodeCentering mode.code = .ok mode := by
  cases mode <;> exact ⟨by decide, rfl⟩

theorem reads_config {config : QuantizerConfig} (hcheck : config.check = .ok ())
    (hdimension : config.dimension ≤ 2 ^ 20) :
    Reads readConfig
      (toLittleEndian 8 config.dimension ++ (toLittleEndian 8 config.subquantizers ++
        (toLittleEndian 4 config.grouping.code ++ (toLittleEndian 4 config.transform.code ++
          (toLittleEndian 4 config.metric.code ++ toLittleEndian 4 config.centering.code)))))
      config := by
  have hle : config.subquantizers ≤ config.dimension := by
    rw [QuantizerConfig.check, guard_eq_ok] at hcheck
    have := hcheck.1
    omega
  refine Reads.bind (reads_size _ hdimension (by decide)) ?_
  refine Reads.bind (reads_size _ hle (hdimension.trans (by decide))) ?_
  refine Reads.bind (reads_scalar (grouping_code config.grouping).1) ?_
  refine Reads.skip (reads_ofExcept (grouping_code config.grouping).2) ?_
  refine Reads.bind (reads_scalar (transform_code config.transform).1) ?_
  refine Reads.skip (reads_ofExcept (transform_code config.transform).2) ?_
  refine Reads.bind (reads_scalar (metric_code config.metric).1) ?_
  refine Reads.skip (reads_ofExcept (metric_code config.metric).2) ?_
  refine Reads.finish (reads_scalar (centering_code config.centering).1) ?_
  exact Reads.skip (reads_ofExcept (centering_code config.centering).2) (reads_pure config)

theorem reads_mean {mean : List Float32} {dimension : Nat} (hmean : mean.length = dimension)
    (hdimension : dimension ≤ 2 ^ 20) :
    Reads (readMean dimension) (writeVector encodeFloat mean) mean := by
  refine Reads.finish (reads_vector _ (fun value _ => reads_float value) hmean.le
    (hdimension.trans (by decide))) ?_
  exact Reads.guard (not_not.mpr hmean) (reads_pure mean)

theorem reads_rotation (hfaiss : FaissShapes faiss) (hio : io.Inverts faiss)
    {config : QuantizerConfig} (hdimension : config.dimension ≤ 2 ^ 20)
    {rotation : Option (LinearTransform Float32)}
    (htrained : ∀ transform ∈ rotation, transform.TrainedBy faiss config.dimension)
    (hpresence : rotation.isSome ↔ config.transform ≠ .none) :
    Reads (readRotation io config) (writeRotation io rotation) rotation := by
  cases rotation with
  | none =>
      have hnone : config.transform = .none := by simpa using hpresence
      refine Reads.finish (reads_flag false) ?_
      refine Reads.guard (by simp [hnone]) ?_
      exact reads_pure none
  | some transform =>
      have hsome : config.transform ≠ .none := hpresence.mp rfl
      have htransform := (htrained transform rfl).learned hfaiss
      refine Reads.bind (reads_flag true) ?_
      refine Reads.guard (by simp [hsome]) ?_
      refine Reads.finish (hio.htransform transform _ hdimension (htrained transform rfl)) ?_
      refine Reads.guard ?_ (reads_pure (some transform))
      simp [htransform.hdIn, htransform.hdOut, htransform.hA, htransform.htrained,
        htransform.horthonormal]

/-- The back-end number and the codec, when it can be written. -/
def directionBytes (io : FaissIo) : DirectionQuantizer Float32 Float → List UInt8
  | .uniform pq => toLittleEndian 1 0 ++ io.writePq pq
  | .uneven quantizer => toLittleEndian 1 1 ++ writeUnevenBytes io quantizer

theorem reads_direction (hio : io.Inverts faiss) {config : QuantizerConfig}
    (hdimension : config.dimension ≤ 2 ^ 20) (hle : config.subquantizers ≤ config.dimension)
    (heven : config.subquantizers % 2 = 0) {direction new : DirectionQuantizer Float32 Float}
    (hnew : createDirection faiss config = .ok new) (hformed : direction.Formed config)
    (huneven : ∀ uneven, direction = .uneven uneven → uneven.Learned ∧
      ∃ created, createBuckets faiss (uneven.buckets.map CodedBucket.layout) = .ok created) :
    writeDirection io direction = .ok (directionBytes io direction) ∧
      Reads (readDirection faiss io config) (directionBytes io direction) direction := by
  cases direction with
  | uniform pq =>
      obtain ⟨hgrouping, hshaped⟩ := hformed
      refine ⟨rfl, Reads.bind (reads_scalar (by decide)) ?_⟩
      refine Reads.guard (by simp [hgrouping]) ?_
      obtain ⟨created, hcreated⟩ : ∃ created, faiss.createPq config.dimension config.subquantizers
          nbits = .ok created := by
        simp only [createDirection, hgrouping, bind_eq_ok] at hnew
        obtain ⟨created, hcreated, -⟩ := hnew
        exact ⟨created, hcreated⟩
      refine Reads.finish (hio.hpq _ _ _ _ hdimension (hle.trans hdimension) hcreated hshaped) ?_
      refine Reads.guard ?_ (reads_pure _)
      rw [hshaped.hd, hshaped.hM, hshaped.hnbits, hshaped.hksub, hshaped.hcodeSize,
        hshaped.hcentroids]
      simp only [nbits, ne_eq, not_true_eq_false, false_or]
      omega
  | uneven quantizer =>
      obtain ⟨hgrouping, hd, hM, hmaximum, -, -⟩ := hformed
      obtain ⟨hlearned, created, hcreated⟩ := huneven quantizer rfl
      obtain ⟨hwrite, hreads⟩ :=
        reads_uneven hio hlearned hcreated (hd ▸ hdimension) (by omega)
      refine ⟨by rw [writeDirection, hwrite]; rfl, Reads.bind (reads_scalar (by decide)) ?_⟩
      refine Reads.guard (by simp [hgrouping]) ?_
      exact Reads.finish hreads (Reads.guard (by simp [hd, hM]) (reads_pure _))

end Faiss

end Recast
