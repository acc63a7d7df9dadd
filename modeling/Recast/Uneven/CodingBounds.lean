import Recast.Foundation.Buffers
import Recast.Model.Trained
import Recast.Uneven.LaidOut
import Mathlib.Algebra.BigOperators.Ring.List

/-!
# The buffers of the uneven coding functions

`compute_codes`, `decode` and `compute_inner_prod_table` on the flat buffers of
their callers, with every index checked. On a valid layout no index leaves its
buffer.
-/

namespace Recast

open Foundation

variable {F K : Type}

/-- Faiss's coding with one codebook, on buffers. The types say how many entries a
call writes. -/
structure FaissBuffers (F : Type) where
  computeCodes : (pq : ProductQuantizer F) → (n : ℕ) → List F → Vector UInt8 (n * pq.codeSize)
  decode : (pq : ProductQuantizer F) → (n : ℕ) → List UInt8 → Vector F (n * pq.d)
  innerProdTable : (pq : ProductQuantizer F) → List F → Vector F (pq.M * pq.ksub)

section Checked

variable [Zero F]

/-- `gather_bucket`. -/
def gatherBucket (d : ℕ) (bucket : Bucket) (n : ℕ) (x gathered : List F) : Option (List F) :=
  (List.range n).foldlM
    (fun gathered i =>
      (List.range bucket.bucketDimension).foldlM
        (fun gathered j => do
          let dimension ← bucket.dimensions[j]?
          let value ← x[i * d + dimension]?
          storeAt gathered (i * bucket.bucketDimension + j) value)
        gathered)
    (resize 0 gathered (n * bucket.bucketDimension))

/-- The loop of `decode` that puts the values of a bucket at its dimensions. -/
def scatterBucket (d : ℕ) (bucket : Bucket) (n : ℕ) (reconstructed x : List F) :
    Option (List F) :=
  (List.range n).foldlM
    (fun x i =>
      (List.range bucket.bucketDimension).foldlM
        (fun x j => do
          let value ← reconstructed[i * bucket.bucketDimension + j]?
          let dimension ← bucket.dimensions[j]?
          storeAt x (i * d + dimension) value)
        x)
    x

/-- The output of `compute_codes` and its two vectors. -/
structure EncodeBuffers (F : Type) where
  codes : List UInt8
  gathered : List F
  bucketCodes : List UInt8

/-- The body of the loop of `compute_codes` over the buckets. -/
def encodeBucket (faiss : FaissBuffers F) (shape : UnevenShape) (n : ℕ) (x : List F)
    (buffers : EncodeBuffers F) (bucket : CodedBucket F) : Option (EncodeBuffers F) := do
  let gathered ← gatherBucket shape.d bucket.layout n x buffers.gathered
  let bucketCodes := resize 0 buffers.bucketCodes (n * bucket.layout.bucketCodeSize)
  -- Faiss takes `n` rows from `gathered` and writes `n` codes to `bucket_codes`.
  let rows ← loadSlice gathered 0 (n * bucket.pq.d)
  let bucketCodes ← storeSlice bucketCodes 0 (faiss.computeCodes bucket.pq n rows).toList
  let codes ← copyRows n bucket.layout.bucketCodeSize buffers.codes (shape.M / 2)
    bucket.layout.codeOffset bucketCodes bucket.layout.bucketCodeSize 0
  some ⟨codes, gathered, bucketCodes⟩

/-- `compute_codes`, into the buffer `codes`. -/
def UnevenProductQuantizer.computeCodesInto (faiss : FaissBuffers F)
    (quantizer : UnevenProductQuantizer F K) (x : List F) (codes : List UInt8) (n : ℕ) :
    Except ModelError (Option (List UInt8)) :=
  if quantizer.isTrained = false then .error (.faiss "uneven PQ is not trained")
  else if n = 0 then .ok (some codes)
  else .ok do
    let codes ← storeSlice codes 0 (List.replicate (n * (quantizer.shape.M / 2)) 0)
    let buffers ← quantizer.buckets.foldlM (encodeBucket faiss quantizer.shape n x) ⟨codes, [], []⟩
    some buffers.codes

/-- The output of `decode` and its two vectors. -/
structure DecodeBuffers (F : Type) where
  x : List F
  bucketCodes : List UInt8
  reconstructed : List F

/-- The body of the loop of `decode` over the buckets. -/
def decodeBucket (faiss : FaissBuffers F) (shape : UnevenShape) (n : ℕ) (codes : List UInt8)
    (buffers : DecodeBuffers F) (bucket : CodedBucket F) : Option (DecodeBuffers F) := do
  let bucketCodes ← copyRows n bucket.layout.bucketCodeSize
    (resize 0 buffers.bucketCodes (n * bucket.layout.bucketCodeSize)) bucket.layout.bucketCodeSize 0
    codes (shape.M / 2) bucket.layout.codeOffset
  let reconstructed := resize 0 buffers.reconstructed (n * bucket.layout.bucketDimension)
  -- Faiss takes `n` codes from `bucket_codes` and writes `n` rows to `reconstructed`.
  let codeRows ← loadSlice bucketCodes 0 (n * bucket.pq.codeSize)
  let reconstructed ← storeSlice reconstructed 0 (faiss.decode bucket.pq n codeRows).toList
  let x ← scatterBucket shape.d bucket.layout n reconstructed buffers.x
  some ⟨x, bucketCodes, reconstructed⟩

/-- `decode`, into the buffer `x`. -/
def UnevenProductQuantizer.decodeInto (faiss : FaissBuffers F)
    (quantizer : UnevenProductQuantizer F K) (codes : List UInt8) (x : List F) (n : ℕ) :
    Except ModelError (Option (List F)) :=
  if quantizer.isTrained = false then .error (.faiss "uneven PQ is not trained")
  else if n = 0 then .ok (some x)
  else .ok do
    let x ← storeSlice x 0 (List.replicate (n * quantizer.shape.d) 0)
    let buffers ← quantizer.buckets.foldlM (decodeBucket faiss quantizer.shape n codes) ⟨x, [], []⟩
    some buffers.x

/-- The body of the loop of `compute_inner_prod_table` over the buckets: the table
and the vector of gathered values. -/
def tableBucket (faiss : FaissBuffers F) (shape : UnevenShape) (ksub : ℕ) (x : List F)
    (buffers : List F × List F) (bucket : CodedBucket F) : Option (List F × List F) := do
  let gathered ← gatherBucket shape.d bucket.layout 1 x buffers.2
  let row ← loadSlice gathered 0 bucket.pq.d
  let table ← storeSlice buffers.1 (bucket.layout.firstSubspace * ksub)
    (faiss.innerProdTable bucket.pq row).toList
  some (table, gathered)

/-- `compute_inner_prod_table`, into the buffer `table`. -/
def UnevenProductQuantizer.innerProdTableInto (faiss : FaissBuffers F)
    (quantizer : UnevenProductQuantizer F K) (x table : List F) :
    Except ModelError (Option (List F)) :=
  if quantizer.isTrained = false then .error (.faiss "uneven PQ is not trained")
  else .ok do
    let buffers ← quantizer.buckets.foldlM
      (tableBucket faiss quantizer.shape (2 ^ nbits) x) (table, [])
    some buffers.1

end Checked

/-! ## Every index is inside its buffer -/

/-- What the coding functions need of a bucket: dimensions of the vector, a place
in the code and in the table, and a codebook of its shape. -/
structure CodedBucket.Fits (shape : UnevenShape) (bucket : CodedBucket F) : Prop where
  dimensions : ∀ x ∈ bucket.layout.dimensions, x < shape.d
  width : bucket.layout.dimensions.length = bucket.layout.bucketDimension
  code : bucket.layout.codeOffset + bucket.layout.bucketCodeSize ≤ shape.M / 2
  table : bucket.layout.firstSubspace * 2 ^ nbits + bucket.layout.subspaceCount * 2 ^ nbits ≤
    shape.M * 2 ^ nbits
  pqDimension : bucket.pq.d = bucket.layout.bucketDimension
  pqCodeSize : bucket.pq.codeSize = bucket.layout.bucketCodeSize
  pqTable : bucket.pq.M * bucket.pq.ksub = bucket.layout.subspaceCount * 2 ^ nbits

theorem Bucket.dimension_inside {d : ℕ} {layout : Bucket}
    (hdimensions : ∀ x ∈ layout.dimensions, x < d)
    (hwidth : layout.dimensions.length = layout.bucketDimension) {j : ℕ}
    (hj : j < layout.bucketDimension) :
    ∃ dimension, layout.dimensions[j]? = some dimension ∧ dimension < d := by
  have hlength : j < layout.dimensions.length := hwidth.symm ▸ hj
  exact ⟨_, List.getElem?_eq_getElem hlength, hdimensions _ (List.getElem_mem hlength)⟩

/-- The buckets of a laid-out quantizer fit. -/
theorem LaidOut.fits {shape : UnevenShape} {buckets : List (CodedBucket F)}
    (h : LaidOut shape (buckets.map CodedBucket.layout))
    (hshaped : ∀ bucket ∈ buckets,
      bucket.pq.Shaped bucket.layout.bucketDimension bucket.layout.subspaceCount nbits) :
    ∀ bucket ∈ buckets, bucket.Fits shape := by
  intro bucket hbucket
  have hlayout := List.mem_map_of_mem (f := CodedBucket.layout) hbucket
  have hpq := hshaped bucket hbucket
  have hhalf := h.halves _ hlayout
  have hhalves : 2 * ((buckets.map CodedBucket.layout).map Bucket.bucketCodeSize).sum = shape.M := by
    rw [← List.sum_map_mul_left, List.map_congr_left h.halves, h.groups]
  have hcode := h.codes.end_le hlayout
  have htable := h.tables.end_le hlayout
  rw [List.sum_map_mul_left, h.groups] at htable
  have hsixteen : (2 : ℕ) ^ nbits = 16 := rfl
  exact {
    dimensions := fun x hx => List.mem_range.mp
      (h.partition.mem_iff.mp (List.mem_flatMap.mpr ⟨_, hlayout, hx⟩))
    width := (h.widths _ hlayout).1.symm
    code := by omega
    table := by
      rw [hsixteen]
      omega
    pqDimension := hpq.hd
    pqCodeSize := by
      rw [hpq.hcodeSize, nbits]
      omega
    pqTable := by rw [hpq.hM, hpq.hksub] }

section Bounds

variable [Zero F] {faiss : FaissBuffers F} {shape : UnevenShape} {n : ℕ} {x : List F}

theorem gatherBucket_inside {d : ℕ} {layout : Bucket} (hdimensions : ∀ x ∈ layout.dimensions, x < d)
    (hwidth : layout.dimensions.length = layout.bucketDimension) (hx : n * d ≤ x.length)
    (gathered : List F) :
    ∃ gathered', gatherBucket d layout n x gathered = some gathered' ∧
      gathered'.length = n * layout.bucketDimension := by
  apply foldlM_rows_sized ?_ (length_resize _ _ _)
  intro i hi j hj buffer hbuffer
  obtain ⟨dimension, hdimension, hlt⟩ := layout.dimension_inside hdimensions hwidth hj
  have hread : i * d + dimension < x.length := (row_end_le hi hlt).trans hx
  have hwrite : i * layout.bucketDimension + j < buffer.length := hbuffer ▸ row_end_le hi hj
  obtain ⟨buffer', hstore, hlength⟩ := storeAt_inside hwrite x[i * d + dimension]
  refine ⟨buffer', ?_, hlength.trans hbuffer⟩
  rw [hdimension, Option.bind_eq_bind, Option.bind_some, List.getElem?_eq_getElem hread]
  exact hstore

omit [Zero F] in
theorem scatterBucket_inside {d : ℕ} {layout : Bucket} (hdimensions : ∀ x ∈ layout.dimensions, x < d)
    (hwidth : layout.dimensions.length = layout.bucketDimension) {reconstructed : List F}
    (hreconstructed : n * layout.bucketDimension ≤ reconstructed.length) (hx : n * d ≤ x.length) :
    ∃ x', scatterBucket d layout n reconstructed x = some x' ∧ x'.length = x.length := by
  apply foldlM_rows_sized ?_ rfl
  intro i hi j hj current hcurrent
  obtain ⟨dimension, hdimension, hlt⟩ := layout.dimension_inside hdimensions hwidth hj
  have hread : i * layout.bucketDimension + j < reconstructed.length :=
    (row_end_le hi hj).trans hreconstructed
  have hwrite : i * d + dimension < current.length := (row_end_le hi hlt).trans (hcurrent ▸ hx)
  obtain ⟨current', hstore, hlength⟩ :=
    storeAt_inside hwrite reconstructed[i * layout.bucketDimension + j]
  refine ⟨current', ?_, hlength.trans hcurrent⟩
  rw [List.getElem?_eq_getElem hread, Option.bind_eq_bind, Option.bind_some, hdimension]
  exact hstore

theorem encodeBucket_inside {bucket : CodedBucket F} (hbucket : bucket.Fits shape)
    (hx : n * shape.d ≤ x.length) {buffers : EncodeBuffers F}
    (hcodes : n * (shape.M / 2) ≤ buffers.codes.length) :
    ∃ buffers', encodeBucket faiss shape n x buffers bucket = some buffers' ∧
      buffers'.codes.length = buffers.codes.length := by
  obtain ⟨gathered, hgather, hgathered⟩ :=
    gatherBucket_inside hbucket.dimensions hbucket.width hx buffers.gathered
  have hrows : 0 + n * bucket.pq.d ≤ gathered.length := by
    rw [hgathered, hbucket.pqDimension, Nat.zero_add]
  have hwritten (rows : List F) : 0 + (faiss.computeCodes bucket.pq n rows).toList.length ≤
      (resize 0 buffers.bucketCodes (n * bucket.layout.bucketCodeSize)).length := by
    rw [length_resize, Vector.length_toList, hbucket.pqCodeSize, Nat.zero_add]
  obtain ⟨bucketCodes, hstore, hlength⟩ :=
    storeSlice_inside (hwritten (slice gathered 0 (n * bucket.pq.d)))
  rw [length_resize] at hlength
  obtain ⟨codes, hcopy, hsize⟩ := copyRows_inside hbucket.code hcodes (Nat.zero_add _).le
    hlength.ge
  refine ⟨⟨codes, gathered, bucketCodes⟩, ?_, hsize⟩
  simp only [encodeBucket, hgather, loadSlice_inside hrows, hstore, hcopy, Option.bind_eq_bind,
    Option.bind_some]

theorem decodeBucket_inside {bucket : CodedBucket F} (hbucket : bucket.Fits shape)
    {codes : List UInt8} (hcodes : n * (shape.M / 2) ≤ codes.length) {buffers : DecodeBuffers F}
    (hx : n * shape.d ≤ buffers.x.length) :
    ∃ buffers', decodeBucket faiss shape n codes buffers bucket = some buffers' ∧
      buffers'.x.length = buffers.x.length := by
  obtain ⟨bucketCodes, hcopy, hbytes⟩ := copyRows_inside (Nat.zero_add _).le
    (length_resize 0 buffers.bucketCodes (n * bucket.layout.bucketCodeSize)).ge hbucket.code hcodes
  rw [length_resize] at hbytes
  have hcodeRows : 0 + n * bucket.pq.codeSize ≤ bucketCodes.length := by
    rw [hbytes, hbucket.pqCodeSize, Nat.zero_add]
  have hwritten (codeRows : List UInt8) : 0 + (faiss.decode bucket.pq n codeRows).toList.length ≤
      (resize 0 buffers.reconstructed (n * bucket.layout.bucketDimension)).length := by
    rw [length_resize, Vector.length_toList, hbucket.pqDimension, Nat.zero_add]
  obtain ⟨reconstructed, hstore, hlength⟩ :=
    storeSlice_inside (hwritten (slice bucketCodes 0 (n * bucket.pq.codeSize)))
  rw [length_resize] at hlength
  obtain ⟨x, hscatter, hsize⟩ :=
    scatterBucket_inside hbucket.dimensions hbucket.width hlength.ge hx
  refine ⟨⟨x, bucketCodes, reconstructed⟩, ?_, hsize⟩
  simp only [decodeBucket, hcopy, loadSlice_inside hcodeRows, hstore, hscatter,
    Option.bind_eq_bind, Option.bind_some]

theorem tableBucket_inside {bucket : CodedBucket F} (hbucket : bucket.Fits shape)
    (hx : shape.d ≤ x.length) {buffers : List F × List F}
    (htable : shape.M * 2 ^ nbits ≤ buffers.1.length) :
    ∃ buffers', tableBucket faiss shape (2 ^ nbits) x buffers bucket = some buffers' ∧
      buffers'.1.length = buffers.1.length := by
  rw [← Nat.one_mul shape.d] at hx
  obtain ⟨gathered, hgather, hgathered⟩ :=
    gatherBucket_inside hbucket.dimensions hbucket.width hx buffers.2
  have hrow : 0 + bucket.pq.d ≤ gathered.length := by
    rw [hgathered, hbucket.pqDimension, Nat.zero_add, Nat.one_mul]
  have hwritten (row : List F) : bucket.layout.firstSubspace * 2 ^ nbits +
      (faiss.innerProdTable bucket.pq row).toList.length ≤ buffers.1.length := by
    rw [Vector.length_toList, hbucket.pqTable]
    exact hbucket.table.trans htable
  obtain ⟨table, hstore, hlength⟩ := storeSlice_inside (hwritten (slice gathered 0 bucket.pq.d))
  refine ⟨(table, gathered), ?_, hlength⟩
  simp only [tableBucket, hgather, loadSlice_inside hrow, hstore, Option.bind_eq_bind,
    Option.bind_some]

/-! ### The coding functions -/

variable {quantizer : UnevenProductQuantizer F K}

theorem UnevenProductQuantizer.computeCodesInto_inside (htrained : quantizer.isTrained = true)
    (hfits : ∀ bucket ∈ quantizer.buckets, bucket.Fits quantizer.shape)
    (hx : n * quantizer.shape.d ≤ x.length) {codes : List UInt8}
    (hcodes : n * (quantizer.shape.M / 2) ≤ codes.length) :
    ∃ codes', quantizer.computeCodesInto faiss x codes n = .ok (some codes') ∧
      codes'.length = codes.length := by
  rw [computeCodesInto, htrained, if_neg (by simp)]
  split
  next => exact ⟨codes, rfl, rfl⟩
  next =>
    obtain ⟨cleared, hclear, hcleared⟩ := storeSlice_replicate_inside hcodes (0 : UInt8)
    have hloop : ∃ buffers, quantizer.buckets.foldlM (encodeBucket faiss quantizer.shape n x)
        ⟨cleared, [], []⟩ = some buffers ∧ buffers.codes.length = codes.length := by
      apply foldlM_inside
        (P := fun buffers : EncodeBuffers F => buffers.codes.length = codes.length) ?_ hcleared
      intro buffers bucket hbuffers hbucket
      rw [← hbuffers] at hcodes ⊢
      exact encodeBucket_inside (hfits bucket hbucket) hx hcodes
    obtain ⟨buffers, hrun, hlength⟩ := hloop
    refine ⟨buffers.codes, ?_, hlength⟩
    rw [hclear, Option.bind_eq_bind, Option.bind_some, hrun]
    rfl

theorem UnevenProductQuantizer.decodeInto_inside (htrained : quantizer.isTrained = true)
    (hfits : ∀ bucket ∈ quantizer.buckets, bucket.Fits quantizer.shape) {codes : List UInt8}
    (hcodes : n * (quantizer.shape.M / 2) ≤ codes.length)
    (hx : n * quantizer.shape.d ≤ x.length) :
    ∃ x', quantizer.decodeInto faiss codes x n = .ok (some x') ∧ x'.length = x.length := by
  rw [decodeInto, htrained, if_neg (by simp)]
  split
  next => exact ⟨x, rfl, rfl⟩
  next =>
    obtain ⟨cleared, hclear, hcleared⟩ := storeSlice_replicate_inside hx (0 : F)
    have hloop : ∃ buffers, quantizer.buckets.foldlM (decodeBucket faiss quantizer.shape n codes)
        ⟨cleared, [], []⟩ = some buffers ∧ buffers.x.length = x.length := by
      apply foldlM_inside
        (P := fun buffers : DecodeBuffers F => buffers.x.length = x.length) ?_ hcleared
      intro buffers bucket hbuffers hbucket
      rw [← hbuffers] at hx ⊢
      exact decodeBucket_inside (hfits bucket hbucket) hcodes hx
    obtain ⟨buffers, hrun, hlength⟩ := hloop
    refine ⟨buffers.x, ?_, hlength⟩
    rw [hclear, Option.bind_eq_bind, Option.bind_some, hrun]
    rfl

theorem UnevenProductQuantizer.innerProdTableInto_inside (htrained : quantizer.isTrained = true)
    (hfits : ∀ bucket ∈ quantizer.buckets, bucket.Fits quantizer.shape)
    (hx : quantizer.shape.d ≤ x.length) {table : List F}
    (htable : quantizer.shape.M * 2 ^ nbits ≤ table.length) :
    ∃ table', quantizer.innerProdTableInto faiss x table = .ok (some table') ∧
      table'.length = table.length := by
  rw [innerProdTableInto, htrained, if_neg (by simp)]
  have hloop : ∃ buffers, quantizer.buckets.foldlM
      (tableBucket faiss quantizer.shape (2 ^ nbits) x) (table, []) = some buffers ∧
        buffers.1.length = table.length := by
    apply foldlM_inside
      (P := fun buffers : List F × List F => buffers.1.length = table.length) ?_ rfl
    intro buffers bucket hbuffers hbucket
    rw [← hbuffers] at htable ⊢
    exact tableBucket_inside (hfits bucket hbucket) hx htable
  obtain ⟨buffers, hrun, hlength⟩ := hloop
  refine ⟨buffers.1, ?_, hlength⟩
  rw [hrun]
  rfl

end Bounds

end Recast
