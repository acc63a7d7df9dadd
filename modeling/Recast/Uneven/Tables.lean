import Recast.Foundation.Lookup
import Recast.Model.Trained
import Recast.Uneven.LaidOut
import Mathlib.Algebra.Order.Field.Basic
import Mathlib.Algebra.BigOperators.Ring.List
import Mathlib.Algebra.Order.BigOperators.Group.List
import Mathlib.Data.List.MinMax
import Mathlib.Tactic.Linarith

/-!
# Tables, codes and decoding of the uneven quantizer

What each bucket's Faiss quantizer does on its own contiguous layout adds up to
the same statement about the whole vector: the tables give the inner product and
the distance to what is decoded, and the code written is a nearest one.
-/

namespace Recast

open Foundation

section

variable {F K : Type} [Field F]

/-- One bucket's table after the other, as the table functions write them. -/
def UnevenProductQuantizer.tableOf (table : ProductQuantizer F → List F → List F)
    (quantizer : UnevenProductQuantizer F K) (row : List F) : List F :=
  quantizer.buckets.foldl
    (fun output bucket =>
      splice output (bucket.layout.firstSubspace * 16)
        (table bucket.pq (gather bucket.layout row)))
    (List.replicate (quantizer.shape.M * 16) 0)

/-- `compute_distance_table`, with Faiss's of one bucket. -/
def UnevenProductQuantizer.computeDistanceTable
    (distanceTable : ProductQuantizer F → List F → List F)
    (quantizer : UnevenProductQuantizer F K) (row : List F) : Except ModelError (List F) :=
  if quantizer.isTrained = false then .error (.faiss "uneven PQ is not trained")
  else .ok (quantizer.tableOf distanceTable row)

/-- `compute_codes` of many rows, with Faiss's of one bucket. -/
def UnevenProductQuantizer.computeCodes
    (computeCodes : ProductQuantizer F → List (List F) → List UInt8)
    (quantizer : UnevenProductQuantizer F K) (rows : List (List F)) :
    Except ModelError (List UInt8) :=
  if quantizer.isTrained = false then .error (.faiss "uneven PQ is not trained")
  else .ok (quantizer.buckets.foldl
    (fun codes bucket =>
      let bucketCodes := computeCodes bucket.pq (rows.map (gather bucket.layout))
      (List.range rows.length).foldl
        (fun codes i =>
          splice codes (i * (quantizer.shape.M / 2) + bucket.layout.codeOffset)
            (slice bucketCodes (i * bucket.layout.bucketCodeSize) bucket.layout.bucketCodeSize))
        codes)
    (List.replicate (rows.length * (quantizer.shape.M / 2)) 0))

end

/-! ## What Faiss computes for one bucket -/

section

variable {F K : Type}

/-- The width of one subspace. -/
def ProductQuantizer.dsub (pq : ProductQuantizer F) : ℕ := pq.d / pq.M

/-- `get_centroids`. -/
def ProductQuantizer.centroid (pq : ProductQuantizer F) (m k : ℕ) : List F :=
  slice pq.centroids ((m * pq.ksub + k) * pq.dsub) pq.dsub

/-- A part of a vector in the contiguous layout. -/
def ProductQuantizer.part (pq : ProductQuantizer F) (row : List F) (m : ℕ) : List F :=
  slice row (m * pq.dsub) pq.dsub

/-- The half byte of subspace `m`, even ones in the low half. -/
def halfOf (code : List UInt8) (m : ℕ) : ℕ := (nibbleAt code (m / 2) (m % 2 == 1)).toNat

theorem halfOf_lt (code : List UInt8) (m : ℕ) : halfOf code m < 16 :=
  UInt8.lt_iff_toNat_lt.mp (nibbleAt_lt code (m / 2) (m % 2 == 1))

theorem length_centroid {pq : ProductQuantizer F} {width count : ℕ}
    (hshaped : pq.Shaped (count * width) count nbits) {m k : ℕ} (hm : m < count) (hk : k < 16) :
    pq.dsub = width ∧ (pq.centroid m k).length = width := by
  have hdsub : pq.dsub = width := by
    rw [ProductQuantizer.dsub, hshaped.hd, hshaped.hM]
    exact Nat.mul_div_cancel_left width (Nat.zero_lt_of_lt hm)
  refine ⟨hdsub, ?_⟩
  rw [ProductQuantizer.centroid, hdsub, length_slice_of_le]
  rw [hshaped.hksub, hshaped.hcentroids, nbits]
  have hlast : m * 2 ^ 4 + k + 1 ≤ count * 2 ^ 4 := by omega
  have hend := Nat.mul_le_mul_right width hlast
  rw [Nat.succ_mul] at hend
  calc (m * 2 ^ 4 + k) * width + width
      _ ≤ count * 2 ^ 4 * width := hend
      _ = count * width * 2 ^ 4 := Nat.mul_right_comm _ _ _

variable [Field F]

/-- The product of two entries, and the square of their difference. -/
def productTerm (a b : F) : F := a * b

def squareTerm (a b : F) : F := (a - b) ^ 2

/-- The table of a row: for each subspace its part against the sixteen centroids. -/
def ProductQuantizer.table (term : F → F → F) (pq : ProductQuantizer F) (row : List F) : List F :=
  (List.range pq.M).flatMap fun m =>
    (List.range 16).map fun k => form term (pq.part row m) (pq.centroid m k)

theorem length_table (term : F → F → F) (pq : ProductQuantizer F) (row : List F) :
    (pq.table term row).length = 16 * pq.M := by
  rw [ProductQuantizer.table, length_flatMap_blocks (fun m => by simp : ∀ m, ((List.range 16).map
    fun k => form term (pq.part row m) (pq.centroid m k)).length = 16), Nat.mul_comm]

/-- The entry a code selects is its centroid's. -/
theorem entryOf_table (term : F → F → F) {pq : ProductQuantizer F} (row : List F)
    (code : List UInt8) {m : ℕ} (hm : m < pq.M) :
    entryOf (pq.table term row) code m =
      form term (pq.part row m) (pq.centroid m (halfOf code m)) := by
  have hblocks : ∀ m, ((List.range 16).map fun k =>
      form term (pq.part row m) (pq.centroid m k)).length = 16 := fun m => by simp
  have hentry := getElem?_flatMap_blocks hblocks hm (halfOf_lt code m)
  rw [entryOf, Nat.mul_comm 16 m, List.getD_eq_getElem?_getD]
  change ((pq.table term row)[m * 16 + halfOf code m]?).getD 0 = _
  rw [ProductQuantizer.table, hentry, List.getElem?_map, List.getElem?_range (halfOf_lt code m)]
  rfl

variable [LinearOrder F]

/-- Faiss is exact on a quantizer: tables, decoding, and codes of nearest centroids. -/
structure PqExact (faiss : Faiss F) (distanceTable : ProductQuantizer F → List F → List F)
    (computeCodes : ProductQuantizer F → List (List F) → List UInt8) (pq : ProductQuantizer F) :
    Prop where
  decode : ∀ code : List UInt8, code.length = pq.M / 2 → faiss.decode pq code =
    (List.range pq.M).flatMap fun m => pq.centroid m (halfOf code m)
  innerProdTable : ∀ row, row.length = pq.d →
    faiss.innerProdTable pq row = pq.table productTerm row
  distanceTable : ∀ row, row.length = pq.d → distanceTable pq row = pq.table squareTerm row
  codes : ∀ rows : List (List F), (∀ row ∈ rows, row.length = pq.d) →
    (computeCodes pq rows).length = rows.length * (pq.M / 2) ∧
      ∀ i row, rows[i]? = some row → ∀ m < pq.M, ∀ k < 16,
        form squareTerm (pq.part row m) (pq.centroid m
          (halfOf (slice (computeCodes pq rows) (i * (pq.M / 2)) (pq.M / 2)) m)) ≤
        form squareTerm (pq.part row m) (pq.centroid m k)

section Bucket

variable {faiss : Faiss F} {distanceTable : ProductQuantizer F → List F → List F}
  {computeCodes : ProductQuantizer F → List (List F) → List UInt8} {pq : ProductQuantizer F}

/-- What is looked up for a code is the form of the row and the decoded vector. -/
theorem PqExact.lookup_table (h : PqExact faiss distanceTable computeCodes pq) {width count : ℕ}
    (hshaped : pq.Shaped (count * width) count nbits) (term : F → F → F) {row : List F}
    (hrow : row.length = count * width) {code : List UInt8} (hcode : code.length = count / 2) :
    (faiss.decode pq code).length = count * width ∧
      lookup (pq.table term row) code count = form term row (faiss.decode pq code) := by
  have hblocks : ∀ m < count, (pq.centroid m (halfOf code m)).length = width :=
    fun m hm => (length_centroid hshaped hm (halfOf_lt code m)).2
  rw [h.decode code (hshaped.hM.symm ▸ hcode), hshaped.hM]
  constructor
  · rw [List.length_flatMap, List.map_congr_left fun m hm => hblocks m (List.mem_range.mp hm)]
    simp
  · rw [form_blocks term hblocks hrow, lookup]
    refine Finset.sum_congr rfl fun m hm => ?_
    have hm := Finset.mem_range.mp hm
    rw [entryOf_table term row code (hshaped.hM.symm ▸ hm), ProductQuantizer.part,
      (length_centroid hshaped hm (halfOf_lt code m)).1]

end Bucket

/-! ## The whole vector -/

section Whole

variable {faiss : Faiss F} {distanceTable : ProductQuantizer F → List F → List F}
  {computeCodes : ProductQuantizer F → List (List F) → List UInt8}
  {quantizer : UnevenProductQuantizer F K}

/-- The buckets are laid out, and Faiss is exact on each of them. -/
structure UnevenProductQuantizer.Exact (faiss : Faiss F)
    (distanceTable : ProductQuantizer F → List F → List F)
    (computeCodes : ProductQuantizer F → List (List F) → List UInt8)
    (quantizer : UnevenProductQuantizer F K) : Prop where
  laidOut : LaidOut quantizer.shape (quantizer.buckets.map CodedBucket.layout)
  shaped : ∀ bucket ∈ quantizer.buckets,
    bucket.pq.Shaped bucket.layout.bucketDimension bucket.layout.subspaceCount nbits
  faiss : ∀ bucket ∈ quantizer.buckets, PqExact faiss distanceTable computeCodes bucket.pq

theorem UnevenProductQuantizer.Exact.widths
    (h : quantizer.Exact faiss distanceTable computeCodes) {bucket : CodedBucket F}
    (hbucket : bucket ∈ quantizer.buckets) (row : List F) :
    (gather bucket.layout row).length = bucket.layout.bucketDimension ∧
      bucket.layout.bucketDimension =
        bucket.layout.subspaceCount * bucket.layout.subspaceDimension ∧
      2 * bucket.layout.bucketCodeSize = bucket.layout.subspaceCount := by
  have hlayout := List.mem_map_of_mem (f := CodedBucket.layout) hbucket
  obtain ⟨hdimensions, hwidth⟩ := h.laidOut.widths _ hlayout
  exact ⟨List.length_map _ |>.trans hdimensions.symm, hwidth, h.laidOut.halves _ hlayout⟩

/-- The groups of the buckets are all groups. -/
theorem UnevenProductQuantizer.Exact.counts
    (h : quantizer.Exact faiss distanceTable computeCodes) :
    (quantizer.buckets.map fun bucket => bucket.layout.subspaceCount).sum = quantizer.shape.M := by
  rw [← h.laidOut.groups, List.map_map]
  rfl

/-- What is gathered for a bucket has the dimension of its quantizer. -/
theorem UnevenProductQuantizer.Exact.gathered
    (h : quantizer.Exact faiss distanceTable computeCodes) {bucket : CodedBucket F}
    (hbucket : bucket ∈ quantizer.buckets) (rows : List (List F)) :
    ∀ row ∈ rows.map (gather bucket.layout), row.length = bucket.pq.d := by
  rw [List.forall_mem_map]
  intro row _
  rw [(h.widths hbucket row).1, (h.shaped bucket hbucket).hd]

/-- The table is the tables of the buckets. -/
theorem UnevenProductQuantizer.Exact.tableOf_eq
    (h : quantizer.Exact faiss distanceTable computeCodes)
    {table : ProductQuantizer F → List F → List F} {row : List F}
    (hlength : ∀ bucket ∈ quantizer.buckets,
      (table bucket.pq (gather bucket.layout row)).length = 16 * bucket.layout.subspaceCount) :
    quantizer.tableOf table row =
      quantizer.buckets.flatMap fun bucket => table bucket.pq (gather bucket.layout row) := by
  have habut := h.laidOut.tables.of_map.congr hlength
  have hcount : (quantizer.buckets.flatMap fun bucket =>
      table bucket.pq (gather bucket.layout row)).length = quantizer.shape.M * 16 := by
    rw [List.length_flatMap, List.map_congr_left hlength, List.sum_map_mul_left, h.counts,
      Nat.mul_comm]
  exact foldl_splice_abut habut (List.length_nil : ([] : List F).length = 0) hcount 0

/-- The sizes of the buckets' codes add up to the code size. -/
theorem UnevenProductQuantizer.Exact.codeSizes
    (h : quantizer.Exact faiss distanceTable computeCodes) :
    (quantizer.buckets.map fun bucket => bucket.layout.bucketCodeSize).sum =
      quantizer.shape.M / 2 := by
  have hdouble : 2 * (quantizer.buckets.map fun bucket => bucket.layout.bucketCodeSize).sum =
      quantizer.shape.M := by
    rw [← List.sum_map_mul_left, List.map_congr_left fun bucket hbucket =>
      (h.widths hbucket []).2.2, h.counts]
  omega

/-- The code is the codes of the buckets. -/
theorem UnevenProductQuantizer.Exact.code_eq
    (h : quantizer.Exact faiss distanceTable computeCodes) {code : List UInt8}
    (hcode : code.length = quantizer.shape.M / 2) :
    (quantizer.buckets.flatMap fun bucket =>
      slice code bucket.layout.codeOffset bucket.layout.bucketCodeSize) = code := by
  have hlength : code.length =
      0 + (quantizer.buckets.map fun bucket => bucket.layout.bucketCodeSize).sum := by
    rw [h.codeSizes, hcode, Nat.zero_add]
  exact flatMap_slice_abut h.laidOut.codes.of_map hlength

/-- A bucket's part of the code. -/
theorem UnevenProductQuantizer.Exact.length_slice
    (h : quantizer.Exact faiss distanceTable computeCodes) {code : List UInt8}
    (hcode : code.length = quantizer.shape.M / 2) {bucket : CodedBucket F}
    (hbucket : bucket ∈ quantizer.buckets) :
    (slice code bucket.layout.codeOffset bucket.layout.bucketCodeSize).length =
      bucket.layout.bucketCodeSize := by
  apply length_slice_of_le
  have hend := h.laidOut.codes.of_map.end_le hbucket
  rw [h.codeSizes] at hend
  omega

/-- Decoding puts the buckets' vectors at their dimensions. -/
theorem UnevenProductQuantizer.Exact.decode_eq
    (h : quantizer.Exact faiss distanceTable computeCodes) {code : List UInt8}
    (hcode : code.length = quantizer.shape.M / 2) :
    quantizer.decode faiss code =
      setAll (List.replicate quantizer.shape.d 0)
        ((quantizer.buckets.flatMap fun bucket => bucket.layout.dimensions).zip
          (quantizer.buckets.flatMap fun bucket => faiss.decode bucket.pq
            (slice code bucket.layout.codeOffset bucket.layout.bucketCodeSize))) := by
  have hlengths : ∀ bucket ∈ quantizer.buckets, bucket.layout.dimensions.length =
      (faiss.decode bucket.pq
        (slice code bucket.layout.codeOffset bucket.layout.bucketCodeSize)).length := by
    intro bucket hbucket
    obtain ⟨hgather, hwidth, hhalf⟩ := h.widths hbucket []
    have hsize := h.length_slice hcode hbucket
    have hdecoded := ((h.faiss bucket hbucket).lookup_table (hwidth ▸ h.shaped bucket hbucket)
      productTerm (hgather.trans hwidth) (hsize.trans (by omega))).1
    rw [hdecoded, ← hwidth, ← hgather]
    exact (List.length_map _).symm
  rw [UnevenProductQuantizer.decode]
  generalize List.replicate quantizer.shape.d (0 : F) = row
  generalize quantizer.buckets = buckets at hlengths
  induction buckets generalizing row with
  | nil => rfl
  | cons bucket rest ih =>
      rw [List.foldl_cons, List.flatMap_cons, List.flatMap_cons,
        List.zip_append (hlengths bucket List.mem_cons_self), setAll_append]
      exact ih _ fun other hother => hlengths other (List.mem_cons_of_mem _ hother)

/-- The form of a row and a decoded vector, bucket by bucket. -/
theorem UnevenProductQuantizer.Exact.form_decode
    (h : quantizer.Exact faiss distanceTable computeCodes) (term : F → F → F) {row : List F}
    (hrow : row.length = quantizer.shape.d) {code : List UInt8}
    (hcode : code.length = quantizer.shape.M / 2) :
    form term row (quantizer.decode faiss code) =
      lookup (quantizer.buckets.flatMap fun bucket =>
        bucket.pq.table term (gather bucket.layout row)) code quantizer.shape.M := by
  let part := fun bucket : CodedBucket F =>
    slice code bucket.layout.codeOffset bucket.layout.bucketCodeSize
  have hbucket : ∀ bucket ∈ quantizer.buckets,
      (faiss.decode bucket.pq (part bucket)).length = (gather bucket.layout row).length ∧
      lookup (bucket.pq.table term (gather bucket.layout row)) (part bucket)
          bucket.layout.subspaceCount =
        form term (gather bucket.layout row) (faiss.decode bucket.pq (part bucket)) := by
    intro bucket hbucket
    obtain ⟨hgather, hwidth, hhalf⟩ := h.widths hbucket row
    have hsize := h.length_slice hcode hbucket
    obtain ⟨hdecoded, hlookup⟩ := (h.faiss bucket hbucket).lookup_table
      (hwidth ▸ h.shaped bucket hbucket) term (hgather.trans hwidth) (hsize.trans (by omega))
    exact ⟨hdecoded.trans (hgather.trans hwidth).symm, hlookup⟩
  have hpartition : (quantizer.buckets.flatMap fun bucket => bucket.layout.dimensions).Perm
      (List.range quantizer.shape.d) := by
    have := h.laidOut.partition
    rwa [List.flatMap_map] at this
  have hplaces : (quantizer.buckets.flatMap fun bucket => bucket.layout.dimensions).length =
      (quantizer.buckets.flatMap fun bucket => faiss.decode bucket.pq (part bucket)).length := by
    rw [List.length_flatMap, List.length_flatMap]
    refine congrArg List.sum (List.map_congr_left fun bucket hmem => ?_)
    exact ((hbucket bucket hmem).1.trans (List.length_map _)).symm
  -- the decoded vector read at the dimensions, one bucket after the other
  have hread : ((quantizer.buckets.flatMap fun bucket => bucket.layout.dimensions).map
      fun i => (quantizer.decode faiss code).getD i 0) =
      quantizer.buckets.flatMap fun bucket => faiss.decode bucket.pq (part bucket) := by
    rw [h.decode_eq hcode]
    refine map_getD_setAll (hpartition.nodup_iff.mpr List.nodup_range) hplaces (fun i hi => ?_) 0
    rw [List.length_replicate]
    exact List.mem_range.mp (hpartition.subset hi)
  have hgathered : ((quantizer.buckets.flatMap fun bucket => bucket.layout.dimensions).map
      fun i => row.getD i 0) = quantizer.buckets.flatMap fun bucket => gather bucket.layout row := by
    rw [List.map_flatMap]
    rfl
  have hdecoded : (quantizer.decode faiss code).length = row.length := by
    rw [h.decode_eq hcode, length_setAll, List.length_replicate, hrow]
  calc form term row (quantizer.decode faiss code)
      _ = form term (quantizer.buckets.flatMap fun bucket => gather bucket.layout row)
            (quantizer.buckets.flatMap fun bucket => faiss.decode bucket.pq (part bucket)) := by
          rw [form_places term (hrow ▸ hpartition) hdecoded, hread, hgathered]
      _ = (quantizer.buckets.map fun bucket => lookup
            (bucket.pq.table term (gather bucket.layout row)) (part bucket)
            bucket.layout.subspaceCount).sum := by
          rw [form_flatMap term fun bucket hmem => (hbucket bucket hmem).1.symm]
          exact congrArg List.sum
            (List.map_congr_left fun bucket hmem => (hbucket bucket hmem).2.symm)
      _ = lookup (quantizer.buckets.flatMap fun bucket =>
            bucket.pq.table term (gather bucket.layout row))
            (quantizer.buckets.flatMap part) quantizer.shape.M := by
          rw [← h.counts, lookup_flatMap (fun bucket hmem => ?_) fun bucket hmem => ?_]
          · rw [length_table, (h.shaped bucket hmem).hM]
          · rw [h.length_slice hcode hmem, (h.widths hmem row).2.2]
      _ = _ := by rw [h.code_eq hcode]

/-- What Faiss writes for row `i` of a bucket. -/
def bucketCode (computeCodes : ProductQuantizer F → List (List F) → List UInt8)
    (rows : List (List F)) (i : ℕ) (bucket : CodedBucket F) : List UInt8 :=
  slice (computeCodes bucket.pq (rows.map (gather bucket.layout)))
    (i * bucket.layout.bucketCodeSize) bucket.layout.bucketCodeSize

theorem UnevenProductQuantizer.Exact.length_bucketCode
    (h : quantizer.Exact faiss distanceTable computeCodes) (rows : List (List F)) {i : ℕ}
    (hi : i < rows.length) {bucket : CodedBucket F} (hbucket : bucket ∈ quantizer.buckets) :
    (bucketCode computeCodes rows i bucket).length = bucket.layout.bucketCodeSize := by
  have hshaped := h.shaped bucket hbucket
  obtain ⟨hlength, -⟩ := (h.faiss bucket hbucket).codes _ (h.gathered hbucket rows)
  have hhalf := (h.widths hbucket []).2.2
  have hend := Nat.mul_le_mul_right bucket.layout.bucketCodeSize hi
  rw [Nat.succ_mul] at hend
  apply length_slice_of_le
  rw [hlength, List.length_map, hshaped.hM, ← hhalf, Nat.mul_div_cancel_left _ (by decide)]
  exact hend

/-- Every row of the batch gets the codes of the buckets, one after the other. -/
theorem UnevenProductQuantizer.Exact.computeCodes_rows
    (h : quantizer.Exact faiss distanceTable computeCodes) (htrained : quantizer.isTrained = true)
    (rows : List (List F)) :
    ∃ codes, quantizer.computeCodes computeCodes rows = .ok codes ∧
      codes.length = rows.length * (quantizer.shape.M / 2) ∧
      ∀ i < rows.length, slice codes (i * (quantizer.shape.M / 2)) (quantizer.shape.M / 2) =
        quantizer.buckets.flatMap (bucketCode computeCodes rows i) := by
  have hrun (buckets : List (CodedBucket F)) (hmem : ∀ bucket ∈ buckets, bucket ∈ quantizer.buckets)
      (buffer : List UInt8) (hbuffer : buffer.length = rows.length * (quantizer.shape.M / 2)) :
      (buckets.foldl (fun codes bucket =>
          (List.range rows.length).foldl (fun codes i =>
            splice codes (i * (quantizer.shape.M / 2) + bucket.layout.codeOffset)
              (bucketCode computeCodes rows i bucket)) codes) buffer).length =
        rows.length * (quantizer.shape.M / 2) ∧
      ∀ i < rows.length, slice (buckets.foldl (fun codes bucket =>
          (List.range rows.length).foldl (fun codes i =>
            splice codes (i * (quantizer.shape.M / 2) + bucket.layout.codeOffset)
              (bucketCode computeCodes rows i bucket)) codes) buffer)
          (i * (quantizer.shape.M / 2)) (quantizer.shape.M / 2) =
        buckets.foldl (fun code bucket =>
            splice code bucket.layout.codeOffset (bucketCode computeCodes rows i bucket))
          (slice buffer (i * (quantizer.shape.M / 2)) (quantizer.shape.M / 2)) := by
    induction buckets generalizing buffer with
    | nil => exact ⟨hbuffer, fun i _ => rfl⟩
    | cons bucket rest ih =>
        have hbucket := hmem bucket List.mem_cons_self
        have hend := h.laidOut.codes.of_map.end_le hbucket
        rw [h.codeSizes, Nat.zero_add] at hend
        obtain ⟨hlength, hrows⟩ := slice_foldl_splice_rows
          (fun i hi => h.length_bucketCode rows hi hbucket) hend hbuffer
        obtain ⟨hrestLength, hrestRows⟩ := ih
          (fun other hother => hmem other (List.mem_cons_of_mem _ hother)) _ hlength
        refine ⟨hrestLength, fun i hi => ?_⟩
        rw [List.foldl_cons, hrestRows i hi, hrows i hi]
        rfl
  obtain ⟨hlength, hrows⟩ := hrun quantizer.buckets (fun bucket hbucket => hbucket)
    (List.replicate (rows.length * (quantizer.shape.M / 2)) 0) List.length_replicate
  refine ⟨_, if_neg (by rw [htrained]; exact Bool.noConfusion), hlength, fun i hi => ?_⟩
  have hend := Nat.mul_le_mul_right (quantizer.shape.M / 2) hi
  rw [Nat.succ_mul] at hend
  have habut := h.laidOut.codes.of_map.congr fun bucket hbucket =>
    h.length_bucketCode rows hi hbucket
  have hcount : (quantizer.buckets.flatMap (bucketCode computeCodes rows i)).length =
      quantizer.shape.M / 2 := by
    rw [List.length_flatMap, List.map_congr_left fun bucket hbucket =>
      h.length_bucketCode rows hi hbucket, h.codeSizes]
  refine (hrows i hi).trans ?_
  rw [slice_replicate 0 hend]
  exact foldl_splice_abut habut (List.length_nil : ([] : List UInt8).length = 0) hcount 0

end Whole

end

section Whole

variable {F K : Type} [Field F] [LinearOrder F] [IsStrictOrderedRing F]
variable {faiss : Faiss F} {distanceTable : ProductQuantizer F → List F → List F}
  {computeCodes : ProductQuantizer F → List (List F) → List UInt8}
  {quantizer : UnevenProductQuantizer F K}

/-- Nearest codes of the buckets add up to no more than any others. -/
theorem UnevenProductQuantizer.Exact.lookup_le
    (h : quantizer.Exact faiss distanceTable computeCodes) {rows : List (List F)} {i : ℕ}
    {row : List F} (hi : rows[i]? = some row) {code : List UInt8}
    (hcode : code.length = quantizer.shape.M / 2) :
    lookup (quantizer.buckets.flatMap fun bucket =>
        bucket.pq.table squareTerm (gather bucket.layout row))
        (quantizer.buckets.flatMap (bucketCode computeCodes rows i)) quantizer.shape.M ≤
      lookup (quantizer.buckets.flatMap fun bucket =>
        bucket.pq.table squareTerm (gather bucket.layout row)) code quantizer.shape.M := by
  have hlt := (List.getElem?_eq_some_iff.mp hi).1
  have htable : ∀ bucket ∈ quantizer.buckets, (bucket.pq.table squareTerm
      (gather bucket.layout row)).length = 16 * bucket.layout.subspaceCount :=
    fun bucket hbucket => by rw [length_table, (h.shaped bucket hbucket).hM]
  rw [← h.code_eq hcode, ← h.counts,
    lookup_flatMap htable fun bucket hbucket => by
      rw [h.length_bucketCode rows hlt hbucket, (h.widths hbucket row).2.2],
    lookup_flatMap htable fun bucket hbucket => by
      rw [h.length_slice hcode hbucket, (h.widths hbucket row).2.2]]
  refine List.sum_le_sum fun bucket hbucket => Finset.sum_le_sum fun m hm => ?_
  have hshaped := h.shaped bucket hbucket
  have hm : m < bucket.pq.M := hshaped.hM.symm ▸ Finset.mem_range.mp hm
  have hhalf : bucket.pq.M / 2 = bucket.layout.bucketCodeSize := by
    have := (h.widths hbucket row).2.2
    rw [hshaped.hM]
    omega
  have hrow : (rows.map (gather bucket.layout))[i]? = some (gather bucket.layout row) := by
    rw [List.getElem?_map, hi]
    rfl
  have hnearest := ((h.faiss bucket hbucket).codes _ (h.gathered hbucket rows)).2 i _ hrow m hm _
    (halfOf_lt (slice code bucket.layout.codeOffset bucket.layout.bucketCodeSize) m)
  rw [hhalf] at hnearest
  rw [entryOf_table _ _ _ hm, entryOf_table _ _ _ hm]
  exact hnearest

/-- For every layout that `build_buckets` accepts and any codebooks on which Faiss is
exact: the tables of a row give the inner product with what a code decodes to and
the squared distance to it, and in a batch of any size every row gets a code whose
decoded vector is nearest. -/
theorem uneven_tables_and_codes_agree {groups : List (List ℕ)}
    (hbuild : buildBuckets quantizer.shape groups =
      .ok (quantizer.buckets.map CodedBucket.layout))
    (hshaped : ∀ bucket ∈ quantizer.buckets,
      bucket.pq.Shaped bucket.layout.bucketDimension bucket.layout.subspaceCount nbits)
    (hfaiss : ∀ bucket ∈ quantizer.buckets, PqExact faiss distanceTable computeCodes bucket.pq)
    (htrained : quantizer.isTrained = true) :
    (∀ row : List F, row.length = quantizer.shape.d →
      ∃ distances, quantizer.computeDistanceTable distanceTable row = .ok distances ∧
        ∀ code : List UInt8, code.length = quantizer.shape.M / 2 →
          lookup (quantizer.innerProdTable faiss row) code quantizer.shape.M =
            form productTerm row (quantizer.decode faiss code) ∧
          lookup distances code quantizer.shape.M =
            form squareTerm row (quantizer.decode faiss code)) ∧
      ∀ rows : List (List F), (∀ row ∈ rows, row.length = quantizer.shape.d) →
        ∃ codes, quantizer.computeCodes computeCodes rows = .ok codes ∧
          codes.length = rows.length * (quantizer.shape.M / 2) ∧
          ∀ i row, rows[i]? = some row → ∀ code : List UInt8,
            code.length = quantizer.shape.M / 2 →
              form squareTerm row (quantizer.decode faiss
                  (slice codes (i * (quantizer.shape.M / 2)) (quantizer.shape.M / 2))) ≤
                form squareTerm row (quantizer.decode faiss code) := by
  have h : quantizer.Exact faiss distanceTable computeCodes :=
    ⟨buildBuckets_laidOut hbuild, hshaped, hfaiss⟩
  have htable {table : ProductQuantizer F → List F → List F} {term : F → F → F}
      (hterm : ∀ bucket ∈ quantizer.buckets, ∀ row, row.length = bucket.pq.d →
        table bucket.pq row = bucket.pq.table term row) (row : List F) :
      quantizer.tableOf table row = quantizer.buckets.flatMap fun bucket =>
        bucket.pq.table term (gather bucket.layout row) := by
    have heach : ∀ bucket ∈ quantizer.buckets, table bucket.pq (gather bucket.layout row) =
        bucket.pq.table term (gather bucket.layout row) :=
      fun bucket hbucket => hterm bucket hbucket _ (h.gathered hbucket [row] _ List.mem_cons_self)
    rw [h.tableOf_eq fun bucket hbucket => by
      rw [heach bucket hbucket, length_table, (hshaped bucket hbucket).hM]]
    exact List.flatMap_congr heach
  refine ⟨fun row hrow => ⟨_, if_neg (by rw [htrained]; exact Bool.noConfusion),
    fun code hcode => ⟨?_, ?_⟩⟩, fun rows hrows => ?_⟩
  · rw [h.form_decode productTerm hrow hcode]
    exact congrArg (fun table => lookup table code quantizer.shape.M)
      (htable (fun bucket hbucket => (hfaiss bucket hbucket).innerProdTable) row)
  · rw [h.form_decode squareTerm hrow hcode,
      htable (fun bucket hbucket => (hfaiss bucket hbucket).distanceTable) row]
  · obtain ⟨codes, hcodes, hlength, hslices⟩ := h.computeCodes_rows htrained rows
    refine ⟨codes, hcodes, hlength, fun i row hi code hcode => ?_⟩
    obtain ⟨hlt, -⟩ := List.getElem?_eq_some_iff.mp hi
    have hrow := hrows row (List.mem_of_getElem? hi)
    have hend := Nat.mul_le_mul_right (quantizer.shape.M / 2) hlt
    rw [Nat.succ_mul] at hend
    rw [h.form_decode squareTerm hrow (length_slice_of_le (hlength ▸ hend)),
      h.form_decode squareTerm hrow hcode, hslices i hlt]
    exact h.lookup_le hi hcode

end Whole

/-! ## An exact Faiss -/

section

variable {F : Type} [Field F] [LinearOrder F]

/-- The nearest centroid of a subspace, the first one among equals. -/
def nearest (pq : ProductQuantizer F) (row : List F) (m : ℕ) : ℕ :=
  ((List.range 16).argmin fun k => form squareTerm (pq.part row m) (pq.centroid m k)).getD 0

theorem nearest_spec (pq : ProductQuantizer F) (row : List F) (m : ℕ) :
    nearest pq row m < 16 ∧ ∀ k < 16,
      form squareTerm (pq.part row m) (pq.centroid m (nearest pq row m)) ≤
        form squareTerm (pq.part row m) (pq.centroid m k) := by
  rw [nearest]
  cases hargmin : (List.range 16).argmin fun k =>
      form squareTerm (pq.part row m) (pq.centroid m k) with
  | none => exact absurd (List.argmin_eq_none.mp hargmin) (by decide)
  | some best =>
      refine ⟨List.mem_range.mp (List.argmin_mem hargmin), fun k hk => ?_⟩
      have hle := List.le_of_mem_argmin (List.mem_range.mpr hk : k ∈ List.range 16) hargmin
      exact hle

/-- The codes of nearest centroids, two of them in a byte. -/
def exactCodes (pq : ProductQuantizer F) (rows : List (List F)) : List UInt8 :=
  (List.range rows.length).flatMap fun i => (List.range (pq.M / 2)).map fun j =>
    UInt8.ofNat (nearest pq (rows.getD i []) (2 * j)) |||
      (UInt8.ofNat (nearest pq (rows.getD i []) (2 * j + 1)) <<< 4)

def exactDecode (pq : ProductQuantizer F) (code : List UInt8) : List F :=
  (List.range pq.M).flatMap fun m => pq.centroid m (halfOf code m)

/-- Faiss in exact arithmetic, as far as coding uses it. -/
def exactFaiss : Faiss F where
  normL2Sqr row := form productTerm row row
  innerProduct := form productTerm
  trainPca d _ _ := (⟨d, d, true, true, [], []⟩, none)
  apply _ row := row
  transformTranspose _ row := row
  createPq d M nbits :=
    .ok ⟨d, M, nbits, 2 ^ nbits, (nbits * M + 7) / 8, List.replicate (d * 2 ^ nbits) 0⟩
  trainPq pq _ := (pq, none)
  computeCode pq row := exactCodes pq [row]
  decode := exactDecode
  innerProdTable pq := pq.table productTerm

theorem nibble_pair : ∀ first second : Fin 16,
    nibble (UInt8.ofNat first ||| (UInt8.ofNat second <<< 4)) false = UInt8.ofNat first ∧
      nibble (UInt8.ofNat first ||| (UInt8.ofNat second <<< 4)) true = UInt8.ofNat second := by
  decide +kernel

theorem halfOf_exactCodes {pq : ProductQuantizer F} (heven : pq.M % 2 = 0) (rows : List (List F))
    {i m : ℕ} (hi : i < rows.length) (hm : m < pq.M) :
    halfOf (slice (exactCodes pq rows) (i * (pq.M / 2)) (pq.M / 2)) m =
      nearest pq (rows.getD i []) m := by
  have hblocks : ∀ i, ((List.range (pq.M / 2)).map fun j =>
      UInt8.ofNat (nearest pq (rows.getD i []) (2 * j)) |||
        (UInt8.ofNat (nearest pq (rows.getD i []) (2 * j + 1)) <<< 4)).length = pq.M / 2 :=
    fun i => by simp
  have hbyte : m / 2 < pq.M / 2 := by omega
  have hentry := getElem?_flatMap_blocks hblocks hi hbyte
  rw [List.getElem?_map, List.getElem?_range hbyte, Option.map_some] at hentry
  obtain ⟨hlow, hhigh⟩ := nibble_pair
    ⟨_, (nearest_spec pq (rows.getD i []) (2 * (m / 2))).1⟩
    ⟨_, (nearest_spec pq (rows.getD i []) (2 * (m / 2) + 1)).1⟩
  rw [halfOf, nibbleAt, getD_slice _ hbyte, List.getD_eq_getElem?_getD, exactCodes, hentry,
    Option.getD_some]
  have hsmall (m : ℕ) : nearest pq (rows.getD i []) m < 2 ^ 8 :=
    (nearest_spec pq (rows.getD i []) m).1.trans (by decide)
  rcases Nat.mod_two_eq_zero_or_one m with hparity | hparity
  · rw [hparity]
    have hhalf : 2 * (m / 2) = m := by omega
    refine (congrArg UInt8.toNat hlow).trans ?_
    rw [UInt8.toNat_ofNat_of_lt' (hsmall _), hhalf]
  · rw [hparity]
    have hhalf : 2 * (m / 2) + 1 = m := by omega
    refine (congrArg UInt8.toNat hhigh).trans ?_
    rw [UInt8.toNat_ofNat_of_lt' (hsmall _), hhalf]

theorem exactFaiss_exact {pq : ProductQuantizer F} (heven : pq.M % 2 = 0) :
    PqExact exactFaiss (fun pq => pq.table squareTerm) exactCodes pq where
  decode code _ := rfl
  innerProdTable row _ := rfl
  distanceTable row _ := rfl
  codes rows _ := by
    refine ⟨?_, fun i row hrow m hm k hk => ?_⟩
    · exact length_flatMap_blocks (fun i => by simp) rows.length
    · obtain ⟨hi, hget⟩ := List.getElem?_eq_some_iff.mp hrow
      rw [halfOf_exactCodes heven rows hi hm, List.getD_eq_getElem _ _ hi, hget]
      exact (nearest_spec pq row m).2 k hk

variable [IsStrictOrderedRing F]

/-- Squared distances are sums of squares. -/
theorem form_square_nonneg (u v : List F) : 0 ≤ form squareTerm u v := by
  refine List.sum_nonneg fun term hterm => ?_
  obtain ⟨i, hi, rfl⟩ := List.mem_iff_getElem.mp hterm
  rw [List.getElem_zipWith]
  exact sq_nonneg _

theorem form_square_eq_zero {u v : List F} (hlength : u.length = v.length)
    (h : form squareTerm u v ≤ 0) : u = v := by
  induction u generalizing v with
  | nil => exact (List.length_eq_zero_iff.mp hlength.symm).symm
  | cons a u ih =>
      cases v with
      | nil => cases hlength
      | cons b v =>
          have hrest := form_square_nonneg u v
          have hsplit : form squareTerm (a :: u) (b :: v) = (a - b) ^ 2 + form squareTerm u v := by
            rw [form, List.zipWith_cons_cons, List.sum_cons]
            rfl
          have hsquare := sq_nonneg (a - b)
          have hab : (a - b) ^ 2 = 0 := by linarith
          rw [ih (Nat.succ.inj hlength) (by linarith),
            sub_eq_zero.mp ((pow_eq_zero_iff two_ne_zero).mp hab)]

/-- A part that is a centroid is coded as one with the same entries. -/
theorem centroid_nearest {pq : ProductQuantizer F} {row : List F} {m : ℕ}
    (hlength : ∀ k < 16, (pq.centroid m k).length = (pq.part row m).length) {k : ℕ} (hk : k < 16)
    (hpart : pq.part row m = pq.centroid m k) :
    pq.centroid m (nearest pq row m) = pq.part row m := by
  obtain ⟨hlt, hle⟩ := nearest_spec pq row m
  have hzero : form squareTerm (pq.part row m) (pq.centroid m k) = 0 := by
    rw [← hpart, form, List.zipWith_self]
    refine List.sum_eq_zero fun term hterm => ?_
    obtain ⟨a, -, rfl⟩ := List.mem_map.mp hterm
    simp [squareTerm]
  exact (form_square_eq_zero (hlength _ hlt).symm ((hle k hk).trans hzero.le)).symm

end

/-- Two groups of one dimension each, in swapped order. -/
def swappedPair : UnevenProductQuantizer ℚ ℚ where
  shape := .pair
  reportLayoutAfterTraining := false
  verbose := false
  isTrained := true
  subspaceDimensions := [[1], [0]]
  idealBitBudgets := []
  groupBitLoads := []
  buckets := [⟨⟨1, 2, 0, 0, 2, 1, [1, 0]⟩, ⟨2, 2, 4, 16, 1,
    ((List.range 16).map fun k => (k : ℚ)) ++ (List.range 16).map fun k => (3 * k : ℚ)⟩⟩]

/-- A batch of two rows for the swapped pair. -/
theorem uneven_tables_and_codes_agree_swapped :
    ∃ codes, swappedPair.computeCodes exactCodes [[7, 4], [100, -2]] = .ok codes ∧
      codes.length = 2 ∧
      ∀ code : List UInt8, code.length = 1 →
        form squareTerm [100, -2] (swappedPair.decode exactFaiss (slice codes 1 1)) ≤
          form squareTerm [100, -2] (swappedPair.decode exactFaiss code) := by
  have hbuild : buildBuckets swappedPair.shape [[1], [0]] =
      .ok (swappedPair.buckets.map CodedBucket.layout) := by
    simp [buildBuckets, cutBuckets, validateLayout, countBuckets, markSeen, bucketOf, swappedPair,
      UnevenShape.pair, UnevenShape.single, bind, Except.bind]
  obtain ⟨-, hcodes⟩ := @uneven_tables_and_codes_agree ℚ ℚ _ _ _ exactFaiss
    (fun pq => pq.table squareTerm) exactCodes swappedPair [[1], [0]] hbuild
    (by
      intro bucket hbucket
      rw [List.mem_singleton.mp hbucket]
      exact ⟨rfl, rfl, rfl, rfl, rfl, rfl⟩)
    (by
      intro bucket hbucket
      rw [List.mem_singleton.mp hbucket]
      exact exactFaiss_exact rfl) rfl
  obtain ⟨codes, hresult, hlength, hnearest⟩ := hcodes [[7, 4], [100, -2]] (by
    intro row hrow
    rcases List.mem_pair.mp hrow with rfl | rfl <;> rfl)
  exact ⟨codes, hresult, hlength, hnearest 1 [100, -2] rfl⟩

end Recast
