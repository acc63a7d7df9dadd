import Recast.Foundation.Simd
import Recast.Scan.Estimate

/-!
# The AVX-512 table kernel

`accumulate_exact_pq4_lut_avx512` adds table rows for 32 packed rows at a time.
It puts every sum together in the order of the scalar kernel, so the two agree
for any addition.
-/

namespace Recast

open Foundation Foundation.Lanes16

section

variable {F : Type} [Zero F] [Add F]

/-- Faiss's `perm0`: the row whose nibble is in a byte of a half. -/
def perm0 : List ℕ := [0, 8, 1, 9, 2, 10, 3, 11, 4, 12, 5, 13, 6, 14, 7, 15]

/-- `sequential_order`: the lane of every row. -/
def sequentialOrder : Lanes16 ℕ :=
  fun lane => [0, 2, 4, 6, 8, 10, 12, 14, 1, 3, 5, 7, 9, 11, 13, 15].getD lane 0

/-- The sums of the rows in the low and in the high nibbles. -/
structure NibbleSums (F : Type) where
  low : Lanes16 F
  high : Lanes16 F

/-- The loop body for the subquantizers `m` and `m + 1`. -/
def NibbleSums.addPair (block : ℕ) (packedCodes : Bytes) (lut : List F) (sums : NibbleSums F)
    (m : ℕ) : NibbleSums F :=
  let pair := block + m / 2 * 32
  let packed0 : Lanes16 UInt8 := loadu packedCodes pair 0
  let packed1 : Lanes16 UInt8 := loadu packedCodes (pair + 16) 0
  let nibbleMask : Lanes16 UInt8 := set1 0x0f
  let low0 := andSi128 packed0 nibbleMask
  let low1 := andSi128 packed1 nibbleMask
  let high0 := andSi128 (srliEpi16 packed0 4) nibbleMask
  let high1 := andSi128 (srliEpi16 packed1 4) nibbleMask
  let lut0 : Lanes16 F := loadu lut (m * 16) 0
  let lut1 : Lanes16 F := loadu lut ((m + 1) * 16) 0
  { low := add (add sums.low (permutexvar (cvtepu8Epi32 low0) lut0))
      (permutexvar (cvtepu8Epi32 low1) lut1)
    high := add (add sums.high (permutexvar (cvtepu8Epi32 high0) lut0))
      (permutexvar (cvtepu8Epi32 high1) lut1) }

/-- The sums of one block after every pair of subquantizers. -/
def blockSums (layout : CodeLayout) (packedCodes : Bytes) (lut : List F) (blockNo : ℕ) :
    NibbleSums F :=
  (List.range (layout.subquantizers / 2)).foldl
    (fun sums pair =>
      sums.addPair (blockNo * (layout.subquantizers / 2 * 32)) packedCodes lut (2 * pair))
    ⟨set1 0, set1 0⟩

/-- `accumulate_exact_pq4_lut_avx512_impl`. -/
def accumulateExactPq4LutAvx512Impl (layout : CodeLayout) (paddedSize : ℕ) (packedCodes : Bytes)
    (lut : List F) : List F :=
  (List.range (paddedSize / 32)).flatMap fun blockNo =>
    let sums := blockSums layout packedCodes lut blockNo
    storeu (permutexvar sequentialOrder sums.low) ++ storeu (permutexvar sequentialOrder sums.high)

/-- `accumulate_exact_pq4_lut_avx512` on a host with the instructions. -/
def accumulateExactPq4LutAvx512 (layout : CodeLayout) (paddedSize blockSize : ℕ)
    (packedCodes : Bytes) (lut : List F) : Except ModelError (List F) :=
  if blockSize ≠ 32 ∨ paddedSize % 32 ≠ 0 then
    .error (.invalidArgument "invalid exact-float PQ4 kernel arguments")
  else .ok (accumulateExactPq4LutAvx512Impl layout paddedSize packedCodes lut)

/-- `accumulate_exact_pq4_lut_scalar`, with blocks of 32 rows. -/
def accumulateExactPq4LutScalar (layout : CodeLayout) (count paddedSize : ℕ)
    (packedCodes : Bytes) (lut : List F) : Except ModelError (List F) :=
  if paddedSize < count ∨ paddedSize % 32 ≠ 0 then
    .error (.invalidArgument "invalid scalar PQ4 kernel arguments")
  else
    .ok ((List.range paddedSize).map fun row =>
      if row < count then accumulateExactPq4Lut layout packedCodes lut row else 0)

end

/-- Restoring the order picks the byte of the row. -/
theorem sequentialOrder_eq : ∀ lane : Fin 16, sequentialOrder lane = CodeLayout.laneAddress lane := by
  decide

/-- A loop over pairs is the loop over the subquantizers. -/
theorem foldl_pairs {β : Type} (f : β → ℕ → β) (n : ℕ) (start : β) :
    (List.range n).foldl (fun state pair => f (f state (2 * pair)) (2 * pair + 1)) start =
      (List.range (2 * n)).foldl f start := by
  induction n with
  | zero => rfl
  | succ n ih =>
      rw [List.range_succ, List.foldl_append, ih, Nat.mul_succ, List.range_succ, List.range_succ,
        List.foldl_append, List.foldl_append]
      rfl

section

variable {F : Type} [Zero F] [Add F] {layout : CodeLayout}

/-- The table entry of a packed byte's nibble for subquantizer `m`. -/
def tableEntry (packedCodes : Bytes) (lut : List F) (high : Bool) (base lane m : ℕ) : F :=
  lut.getD (m * 16 + (nibbleAt packedCodes (base + m / 2 * 32 + m % 2 * 16 + lane) high).toNat) 0

/-- One loop body adds two table entries to every lane, in order. -/
theorem addPair_eq (base : ℕ) (packedCodes : Bytes) (lut : List F) (sums : NibbleSums F)
    (pair : ℕ) :
    sums.addPair base packedCodes lut (2 * pair) =
      ⟨fun lane => sums.low lane + tableEntry packedCodes lut false base lane (2 * pair) +
          tableEntry packedCodes lut false base lane (2 * pair + 1),
        fun lane => sums.high lane + tableEntry packedCodes lut true base lane (2 * pair) +
          tableEntry packedCodes lut true base lane (2 * pair + 1)⟩ := by
  have heven : 2 * pair / 2 = pair ∧ 2 * pair % 2 = 0 := by omega
  have hodd : (2 * pair + 1) / 2 = pair ∧ (2 * pair + 1) % 2 = 1 := by omega
  unfold NibbleSums.addPair tableEntry
  simp only [heven, hodd, srliEpi16_and_mask]
  simp only [and_mask]
  rw [permutexvar_loadu _ _ _ fun lane => nibble_lt _ _,
    permutexvar_loadu _ _ _ fun lane => nibble_lt _ _,
    permutexvar_loadu _ _ _ fun lane => nibble_lt _ _,
    permutexvar_loadu _ _ _ fun lane => nibble_lt _ _]
  rfl

/-- After the loop a lane holds the scalar sum of its nibbles. -/
theorem blockSums_eq (layout : CodeLayout) (packedCodes : Bytes) (lut : List F) (blockNo : ℕ) (lane : Fin 16) :
    (blockSums layout packedCodes lut blockNo).low lane =
        (List.range layout.subquantizers).foldl (fun sum m => sum +
          tableEntry packedCodes lut false (blockNo * (layout.subquantizers / 2 * 32)) lane m) 0 ∧
      (blockSums layout packedCodes lut blockNo).high lane =
        (List.range layout.subquantizers).foldl (fun sum m => sum +
          tableEntry packedCodes lut true (blockNo * (layout.subquantizers / 2 * 32)) lane m) 0 := by
  have hcount : layout.subquantizers = 2 * (layout.subquantizers / 2) := by
    have := layout.even
    omega
  unfold blockSums
  generalize blockNo * (layout.subquantizers / 2 * 32) = base
  rw [hcount, ← foldl_pairs, ← foldl_pairs]
  simp only [Nat.mul_div_cancel_left _ (Nat.succ_pos 1)]
  -- The registers of the first `n` pairs are the first `n` steps of the scalar sums.
  induction layout.subquantizers / 2 with
  | zero => exact ⟨rfl, rfl⟩
  | succ n ih =>
      simp only [List.range_succ, List.foldl_append, List.foldl_cons, List.foldl_nil]
      rw [addPair_eq]
      exact ⟨by rw [← ih.1], by rw [← ih.2]⟩

/-- What a row reads is what its lane reads. -/
theorem accumulate_eq_tableEntry (packedCodes : Bytes) (lut : List F) (row : ℕ) :
    accumulateExactPq4Lut layout packedCodes lut row =
      (List.range layout.subquantizers).foldl (fun sum m => sum +
        tableEntry packedCodes lut (CodeLayout.packedHigh row)
          (row / 32 * (layout.subquantizers / 2 * 32)) (CodeLayout.laneAddress (row % 16)) m) 0 := by
  unfold accumulateExactPq4Lut tableEntry CodeLayout.getPackedElement CodeLayout.packedAddress
  rw [CodeLayout.blockBytes, CodeLayout.codeSize, kUpdateBlockSize, Nat.mul_comm 32]

omit [Zero F] [Add F] in
/-- A lane of a stored, restored register. -/
theorem storeu_permuted (sums : Lanes16 F) {lane : ℕ} (hlane : lane < 16) :
    (storeu (permutexvar sequentialOrder sums))[lane]? =
      some (sums ⟨CodeLayout.laneAddress lane % 16, Nat.mod_lt _ (by decide)⟩) := by
  rw [storeu, List.getElem?_ofFn, dif_pos hlane]
  simp only [permutexvar, sequentialOrder_eq]

/-- The kernel's output for a row of the padded block. -/
theorem avx512Impl_getElem? {blocks row : ℕ} (hrow : row < blocks * 32) (packedCodes : Bytes)
    (lut : List F) :
    (accumulateExactPq4LutAvx512Impl layout (blocks * 32) packedCodes lut)[row]? =
      some (accumulateExactPq4Lut layout packedCodes lut row) := by
  have hsplit : row = row / 32 * 32 + row % 32 := by omega
  have haddress (v : ℕ) (hv : v < 16) :
      CodeLayout.laneAddress v % 16 = CodeLayout.laneAddress v := by
    unfold CodeLayout.laneAddress
    split <;> omega
  obtain ⟨hlow, hhigh⟩ := blockSums_eq layout packedCodes lut (row / 32)
    ⟨CodeLayout.laneAddress (row % 16) % 16, Nat.mod_lt _ (by decide)⟩
  rw [accumulateExactPq4LutAvx512Impl, Nat.mul_div_cancel _ (by decide)]
  conv_lhs => rw [hsplit]
  rw [getElem?_flatMap_blocks (fun block => by simp) (by omega) (by omega),
    accumulate_eq_tableEntry]
  by_cases hhalf : row % 32 < 16
  · have hlane : row % 32 = row % 16 := by omega
    have hhalf' : CodeLayout.packedHigh row = false := decide_eq_false (not_le.mpr hhalf)
    rw [List.getElem?_append_left (by simpa using hhalf), hlane,
      storeu_permuted _ (by omega), hlow, hhalf']
    simp only [haddress _ (Nat.mod_lt row (by decide : 16 > 0))]
  · have hlane : row % 32 - 16 = row % 16 := by omega
    have hhalf' : CodeLayout.packedHigh row = true := decide_eq_true (not_lt.mp hhalf)
    rw [List.getElem?_append_right (by simpa using hhalf), length_storeu, hlane,
      storeu_permuted _ (by omega), hhigh, hhalf']
    simp only [haddress _ (Nat.mod_lt row (by decide : 16 > 0))]

/-- The two kernels agree on every row below the logical count. -/
theorem avx512_eq_scalar {blocks count : ℕ} (hcount : count ≤ blocks * 32) (packedCodes : Bytes)
    (lut : List F) :
    ∃ vector scalar,
      accumulateExactPq4LutAvx512 layout (blocks * 32) 32 packedCodes lut = .ok vector ∧
        accumulateExactPq4LutScalar layout count (blocks * 32) packedCodes lut = .ok scalar ∧
        ∀ row < count, ∃ sum, vector[row]? = some sum ∧ scalar[row]? = some sum := by
  have hblocks : blocks * 32 % 32 = 0 := Nat.mul_mod_left _ _
  refine ⟨_, _, if_neg (by simp [hblocks]), if_neg (by simp [hblocks, hcount]), fun row hrow => ?_⟩
  refine ⟨_, avx512Impl_getElem? (hrow.trans_le hcount) packedCodes lut, ?_⟩
  rw [List.getElem?_map, List.getElem?_range (hrow.trans_le hcount), Option.map_some, if_pos hrow]

end

/-- Sixty-four different bytes, and the squares for a table. -/
def variedCodes : Bytes := (List.range 64).map fun i => UInt8.ofNat (37 * i + 11)

def squares : List ℕ := (List.range 64).map fun i => i * i

/-- Twenty-nine rows of four subquantizers. Rows 4 and 20 have the two halves of the same
bytes. -/
theorem avx512_eq_scalar_varied :
    ∃ vector scalar : List ℕ,
      accumulateExactPq4LutAvx512 ⟨4, by decide, rfl⟩ (1 * 32) 32 variedCodes squares =
          .ok vector ∧
        accumulateExactPq4LutScalar ⟨4, by decide, rfl⟩ 29 (1 * 32) variedCodes squares =
          .ok scalar ∧
        (∀ row < 29, ∃ sum, vector[row]? = some sum ∧ scalar[row]? = some sum) ∧
        vector[4]? = some 4196 ∧ vector[20]? = some 5110 := by
  obtain ⟨vector, scalar, hvector, hscalar, hrows⟩ :=
    @avx512_eq_scalar ℕ _ _ ⟨4, by decide, rfl⟩ 1 29 (by decide) variedCodes squares
  have hsums : (accumulateExactPq4LutAvx512 ⟨4, by decide, rfl⟩ (1 * 32) 32 variedCodes
      squares).toOption.map (fun sums => (sums[4]?, sums[20]?)) = some (some 4196, some 5110) := by
    decide +kernel
  rw [hvector] at hsums
  obtain ⟨hlow, hhigh⟩ := Prod.mk.inj (Option.some.inj hsums)
  exact ⟨vector, scalar, hvector, hscalar, hrows, hlow, hhigh⟩

end Recast
