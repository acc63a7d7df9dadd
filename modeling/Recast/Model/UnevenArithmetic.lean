import Recast.Foundation.CheckedWords
import Recast.Model.AcceptedUneven
import Mathlib.Algebra.Order.BigOperators.Group.List

/-!
# The arithmetic of the uneven reader

`UnevenProductQuantizer::read` with every step of its `size_t` arithmetic
checked. All steps but one are defined for every file: the shift of the
constructor runs before the constructor's checks, and the reader admits an
amount of 64.
-/

namespace Recast

open Foundation

/-- How a read can end without a result: with an exception, or at an arithmetic
step that is not defined or wraps. -/
inductive ReadFault where
  | thrown (error : ModelError)
  | arithmetic

/-- A reader with checked arithmetic. -/
abbrev CheckedReader (α : Type) := Reader ReadFault α

/-- `read_vector` of elements of `width` bytes. -/
def readVectorChecked {α : Type} (element : ModelReader α) (width maximum : ℕ) (name : String) :
    CheckedReader (List α) := do
  let count ← Reader.lift .thrown (readSize maximum name)
  if count = 0 then pure []
  else if count > sizeMax / width then
    Reader.fail (.thrown (.runtime "persistent vector byte size overflows"))
  else do
    -- the size in bytes that `read_bytes` is given
    let _ ← Reader.ofExcept (mulWord .arithmetic count width)
    Reader.lift .thrown (Reader.many element count)

/-- The constructor, with `ksub`: the member initializers run before the checks. -/
def createUnevenChecked (d M nbits maxSubspaceDimension : ℕ) :
    Except ReadFault (UnevenShape × ℕ) := do
  let ksub ← shiftOne .arithmetic nbits
  let shape ← (UnevenShape.create d M nbits maxSubspaceDimension).mapError .thrown
  .ok (shape, ksub)

/-- `checked_size(dimension, loaded_d - 1, "group dimension index")`. -/
def checkDimension (loadedD dimension : ℕ) : Except ReadFault ℕ := do
  let maximum ← subWord .arithmetic loadedD 1
  if dimension > maximum ∨ dimension > sizeMax then
    .error (.thrown (.runtime ("invalid persisted " ++ "group dimension index")))
  else .ok dimension

/-- The loop over the groups, from group `index` on. -/
def readGroupsChecked (loadedD index : ℕ) : ℕ → ℕ → CheckedReader (List (List ℕ) × ℕ)
  | 0, total => pure ([], total)
  | count + 1, total => do
      let persisted ← readVectorChecked (readScalar 8) 8 loadedD "group dimension list"
      let group ← Reader.ofExcept (persisted.mapM (checkDimension loadedD))
      if group = [] then
        Reader.fail (.thrown (.runtime "invalid persisted uneven group dimensions"))
      else do
      let room ← Reader.ofExcept (subWord .arithmetic loadedD group.length)
      if total > room then
        Reader.fail (.thrown (.runtime "invalid persisted uneven group dimensions"))
      else do
      let total ← Reader.ofExcept (addWord .arithmetic total group.length)
      let index ← Reader.ofExcept (addWord .arithmetic index 1)
      let (groups, total) ← readGroupsChecked loadedD index count total
      pure (group :: groups, total)

/-- The loop of `build_buckets`. -/
def cutBucketsChecked (first : ℕ) : List (List ℕ) → Except ReadFault (List Bucket)
  | [] => .ok []
  | group :: rest => do
      let run := group :: rest.takeWhile fun other => other.length = group.length
      let start ← addWord .arithmetic first 1
      let last ← countWords .arithmetic start
        (rest.takeWhile fun other => other.length = group.length).length
      let count ← subWord .arithmetic last first
      if count % 2 ≠ 0 then
        .error (.thrown (.faiss "each subspace-dimension bucket must contain an even group count"))
      else do
        let bucketDimension ← mulWord .arithmetic group.length count
        -- the loop over the groups of the run
        let _ ← countWords .arithmetic first count
        let buckets ← cutBucketsChecked last
          (rest.dropWhile fun other => other.length = group.length)
        .ok ({ subspaceDimension := group.length
               subspaceCount := count
               firstSubspace := first
               codeOffset := first / 2
               bucketDimension := bucketDimension
               bucketCodeSize := count / 2
               dimensions := run.flatten } :: buckets)
  termination_by groups => groups.length
  decreasing_by exact Nat.lt_succ_of_le ((List.dropWhile_sublist _).length_le)

/-- The loop of `validate_layout` over the buckets. -/
def countBucketsChecked (d : ℕ) : List Bucket → LayoutCount → Except ReadFault LayoutCount
  | [], count => .ok count
  | bucket :: rest, count =>
      if bucket.subspaceCount % 2 ≠ 0 then
        .error (.thrown (.faiss "bucket group count is not even"))
      else if bucket.firstSubspace ≠ count.expectedFirst then
        .error (.thrown (.faiss "bucket group offsets are not contiguous"))
      else if bucket.codeOffset ≠ count.expectedFirst / 2 then
        .error (.thrown (.faiss "bucket code offsets are not byte aligned"))
      else do
        let dimensionCount ← addWord .arithmetic count.dimensionCount bucket.bucketDimension
        let byteCount ← addWord .arithmetic count.byteCount bucket.bucketCodeSize
        let expectedFirst ← addWord .arithmetic count.expectedFirst bucket.subspaceCount
        let seen ← (markSeen d bucket.dimensions count.seen).mapError .thrown
        countBucketsChecked d rest
          { seen := seen
            dimensionCount := dimensionCount
            byteCount := byteCount
            expectedFirst := expectedFirst }

/-- `validate_layout`. -/
def validateLayoutChecked (shape : UnevenShape) (dimensions : List (List ℕ))
    (buckets : List Bucket) : Except ReadFault Unit :=
  if dimensions.length ≠ shape.M then
    .error (.thrown (.faiss "uneven PQ layout has the wrong group count"))
  else do
    let count ← countBucketsChecked shape.d buckets ⟨[], 0, 0, 0⟩
    if count.expectedFirst ≠ shape.M then .error (.thrown (.faiss "layout omits PQ groups"))
    else if count.dimensionCount ≠ shape.d then
      .error (.thrown (.faiss "layout omits dimensions"))
    else if count.byteCount ≠ shape.M / 2 then
      .error (.thrown (.faiss "uneven PQ code contains padding bytes"))
    else .ok ()

/-- `build_buckets`. -/
def buildBucketsChecked (shape : UnevenShape) (dimensions : List (List ℕ)) :
    Except ReadFault (List Bucket) := do
  let buckets ← cutBucketsChecked 0 dimensions
  validateLayoutChecked shape dimensions buckets
  .ok buckets

/-- The record and the codebook of a rebuilt bucket. -/
def readBucketChecked (io : FaissIo) (loadedD loadedM codeSize ksub : ℕ) (layout : Bucket) :
    CheckedReader (CodedBucket Float32) := do
  let subspaceDimension ← Reader.lift .thrown (readSize loadedD "bucket subspace dimension")
  let subspaceCount ← Reader.lift .thrown (readSize loadedM "bucket subspace count")
  let firstSubspace ← Reader.lift .thrown (readSize loadedM "bucket first subspace")
  let codeOffset ← Reader.lift .thrown (readSize codeSize "bucket code offset")
  if subspaceDimension ≠ layout.subspaceDimension ∨ subspaceCount ≠ layout.subspaceCount ∨
      firstSubspace ≠ layout.firstSubspace ∨ codeOffset ≠ layout.codeOffset then
    Reader.fail (.thrown (.runtime "persisted uneven bucket layout is inconsistent"))
  else do
    let pq ← Reader.lift .thrown io.readPq
    let expectedCentroids ← Reader.ofExcept (mulWord .arithmetic layout.bucketDimension ksub)
    if pq.d ≠ layout.bucketDimension ∨ pq.M ≠ layout.subspaceCount ∨ pq.nbits ≠ nbits ∨
        pq.ksub ≠ ksub ∨ pq.codeSize ≠ layout.bucketCodeSize ∨
        pq.centroids.length ≠ expectedCentroids then
      Reader.fail (.thrown (.runtime "persisted uneven PQ codebook is incompatible"))
    else pure ⟨layout, pq⟩

def readBucketsChecked (io : FaissIo) (loadedD loadedM codeSize ksub : ℕ) :
    List Bucket → CheckedReader (List (CodedBucket Float32))
  | [] => pure []
  | layout :: rest => do
      let bucket ← readBucketChecked io loadedD loadedM codeSize ksub layout
      let buckets ← readBucketsChecked io loadedD loadedM codeSize ksub rest
      pure (bucket :: buckets)

/-- `UnevenProductQuantizer::read`. -/
def readUnevenChecked (faiss : Faiss Float32) (io : FaissIo) :
    CheckedReader (UnevenProductQuantizer Float32 Float) := do
  let version ← Reader.lift .thrown (readScalar 4)
  if version ≠ kUnevenPersistenceVersion then
    Reader.fail (.thrown (.runtime "unsupported uneven-PQ persistence version"))
  else do
  let loadedD ← Reader.lift .thrown (readSize kMaximumPersistedDimension "dimension")
  let loadedM ← Reader.lift .thrown (readSize loadedD "subquantizer count")
  let loadedNbits ← Reader.lift .thrown (readSize 64 "bits per subquantizer")
  let (constructed, ksub) ← Reader.ofExcept (createUnevenChecked loadedD loadedM loadedNbits 0)
  let maximum ← Reader.lift .thrown (readSize loadedD "maximum subspace dimension")
  let shape : UnevenShape := { constructed with maxSubspaceDimension := maximum }
  let report ← Reader.lift .thrown (readScalar 1)
  let verbose ← Reader.lift .thrown (readScalar 1)
  let groupCount ← Reader.lift .thrown (readSize loadedM "uneven group count")
  if groupCount ≠ loadedM then
    Reader.fail (.thrown (.runtime "persisted uneven PQ has the wrong group count"))
  else do
  let (dimensions, total) ← readGroupsChecked loadedD 0 groupCount 0
  if total ≠ loadedD then
    Reader.fail (.thrown (.runtime "persisted uneven groups do not cover dimension"))
  else do
  let bitBudgets ← readVectorChecked readDouble 8 loadedD "ideal bit budgets"
  let loads ← readVectorChecked readDouble 8 loadedM "group bit loads"
  if bitBudgets.length ≠ loadedD ∨ loads.length ≠ loadedM then
    Reader.fail (.thrown (.runtime "persisted uneven diagnostics have wrong sizes"))
  else do
  let layouts ← Reader.ofExcept (buildBucketsChecked shape dimensions)
  let _ ← Reader.lift .thrown (Reader.ofExcept (createBuckets faiss layouts))
  let bucketCount ← Reader.lift .thrown (readSize loadedM "uneven bucket count")
  if bucketCount ≠ layouts.length then
    Reader.fail (.thrown (.runtime "persisted uneven bucket count is inconsistent"))
  else do
  let buckets ← readBucketsChecked io loadedD loadedM (loadedM / 2) ksub layouts
  Reader.ofExcept (validateLayoutChecked shape dimensions layouts)
  -- the loop over the loads
  let _ ← Reader.ofExcept (countWords .arithmetic 0 loadedM)
  if loadsConsistent dimensions bitBudgets loads = false then
    Reader.fail (.thrown (.runtime "persisted uneven group load is inconsistent"))
  else
    pure {
      shape := shape
      reportLayoutAfterTraining := report != 0
      verbose := verbose != 0
      isTrained := true
      subspaceDimensions := dimensions
      idealBitBudgets := bitBudgets
      groupBitLoads := loads
      buckets := buckets }

/-! ## Within the bounds no step fails -/

open Foundation.Reader

variable {faiss : Faiss Float32} {io : FaissIo} {input rest : List UInt8}

theorem length_many {α : Type} {element : ModelReader α} {count : ℕ} {values : List α}
    (h : Reader.many element count input = .ok (values, rest)) : values.length = count := by
  induction count generalizing input rest values with
  | zero =>
      obtain ⟨rfl, -⟩ := pure_run_eq_ok.mp h
      rfl
  | succ count ih =>
      obtain ⟨value, _, -, h⟩ := bind_run_eq_ok.mp h
      obtain ⟨others, _, hothers, h⟩ := bind_run_eq_ok.mp h
      obtain ⟨rfl, -⟩ := pure_run_eq_ok.mp h
      rw [List.length_cons, ih hothers]

theorem length_readVector {α : Type} {element : ModelReader α} {maximum : ℕ} {name : String}
    {values : List α} (h : readVector element maximum name input = .ok (values, rest)) :
    values.length ≤ maximum := by
  obtain ⟨count, _, hcount, h⟩ := bind_run_eq_ok.mp h
  rw [length_many h]
  exact readSize_le hcount

theorem readVectorChecked_eq {α : Type} (element : ModelReader α) {maximum : ℕ} (name : String)
    (hmaximum : maximum ≤ 2 ^ 20) (input : List UInt8) :
    readVectorChecked element 8 maximum name input =
      lift .thrown (readVector element maximum name) input := by
  apply bind_eq_lift rfl
  intro count rest hcount
  have hle := (readSize_le hcount).trans hmaximum
  have hguard : ¬count > sizeMax / 8 := by
    have : 2 ^ 20 ≤ sizeMax / 8 := by decide
    omega
  by_cases hzero : count = 0
  · rw [if_pos hzero, hzero]
    rfl
  · rw [if_neg hzero, if_neg hguard, ofExcept_bind_eq (mulWord_eq_ok (by omega))]

theorem checkDimension_eq {d : ℕ} (hd : 0 < d) (dimension : ℕ) :
    checkDimension d dimension =
      (if dimension > d - 1 ∨ dimension > sizeMax then
        Except.error (ModelError.runtime ("invalid persisted " ++ "group dimension index"))
      else .ok dimension).mapError .thrown := by
  rw [checkDimension, subWord_eq_ok hd, ok_bind]
  exact guard_eq_mapError fun _ => rfl

theorem readGroupsChecked_eq {d : ℕ} (hpositive : 0 < d) (hd : d ≤ 2 ^ 20) {index count total : ℕ}
    (hindex : index + count ≤ 2 ^ 20) (input : List UInt8) :
    readGroupsChecked d index count total input =
      lift .thrown (readGroups d count total) input := by
  induction count generalizing index total input with
  | zero => rfl
  | succ count ih =>
      rw [readGroupsChecked, readGroups]
      apply bind_eq_lift (readVectorChecked_eq _ _ hd input)
      intro persisted afterVector hpersisted
      apply bind_eq_lift (ofExcept_eq_lift (mapM_eq_mapError fun x _ =>
        checkDimension_eq hpositive x) afterVector)
      intro group afterGroup hgroup
      have hsize : group.length ≤ d := by
        rw [length_mapM_ok (ofExcept_run_eq_ok.mp hgroup).1]
        exact length_readVector hpersisted
      by_cases hempty : group = []
      · rw [if_pos hempty, if_pos (.inl hempty)]
        rfl
      rw [if_neg hempty, ofExcept_bind_eq (subWord_eq_ok hsize)]
      by_cases hfull : total > d - group.length
      · rw [if_pos hfull, if_pos (.inr hfull)]
        rfl
      rw [if_neg hfull, if_neg (not_or.mpr ⟨hempty, hfull⟩),
        ofExcept_bind_eq (addWord_eq_ok (by omega)), ofExcept_bind_eq (addWord_eq_ok (by omega))]
      exact bind_eq_lift (ih (by omega) afterGroup) fun _ _ _ => rfl

theorem cutBucketsChecked_eq {first : ℕ} {groups : List (List ℕ)}
    (hgroups : first + groups.length ≤ 2 ^ 20) (hdimensions : groups.flatten.length ≤ 2 ^ 20) :
    cutBucketsChecked first groups = (cutBuckets first groups).mapError .thrown := by
  induction hsize : groups.length using Nat.strong_induction_on generalizing groups first with
  | _ size ih =>
  cases groups with
  | nil =>
      rw [cutBucketsChecked, cutBuckets]
      rfl
  | cons group rest =>
      have hsplit := List.takeWhile_append_dropWhile
        (p := fun other : List ℕ => decide (other.length = group.length)) (l := rest)
      have hwidth : ∀ other ∈ group :: rest.takeWhile
          (fun other => decide (other.length = group.length)), other.length = group.length :=
        List.forall_mem_cons.mpr ⟨rfl, fun other hother => by
          simpa using List.mem_takeWhile_imp hother⟩
      have hrun := length_flatten_of_width hwidth
      rw [cutBucketsChecked, cutBuckets]
      generalize rest.takeWhile (fun other => decide (other.length = group.length)) = run
        at hsplit hrun ⊢
      generalize rest.dropWhile (fun other => decide (other.length = group.length)) = tail
        at hsplit ⊢
      have hcount := congrArg List.length hsplit
      have hflatten := congrArg (fun groups => (List.flatten groups).length) hsplit
      simp only [List.flatten_append, List.length_append] at hcount hflatten
      rw [List.flatten_cons, List.length_append, List.length_cons] at hrun
      rw [List.length_cons] at hgroups hsize
      rw [List.flatten_cons, List.length_append] at hdimensions
      have hlast : first + 1 + run.length - first = run.length + 1 := by omega
      rw [addWord_eq_ok (by omega), ok_bind, countWords_eq_ok (by omega), ok_bind,
        subWord_eq_ok (by omega), ok_bind, hlast, List.length_cons]
      refine guard_eq_mapError fun _ => ?_
      rw [mulWord_eq_ok (by omega), ok_bind, countWords_eq_ok (by omega), ok_bind,
        ih tail.length (by omega) (by omega) (by omega) rfl, Nat.add_assoc first 1,
        Nat.add_comm 1 run.length]
      exact bind_eq_mapError fun buckets _ => rfl

theorem countBucketsChecked_eq {d : ℕ} {layouts : List Bucket} {count : LayoutCount}
    (hdimensions : count.dimensionCount + (layouts.map Bucket.bucketDimension).sum < 2 ^ 64)
    (hbytes : count.byteCount + (layouts.map Bucket.bucketCodeSize).sum < 2 ^ 64)
    (hgroups : count.expectedFirst + (layouts.map Bucket.subspaceCount).sum < 2 ^ 64) :
    countBucketsChecked d layouts count = (countBuckets d layouts count).mapError .thrown := by
  induction layouts generalizing count with
  | nil => rfl
  | cons layout rest ih =>
      simp only [List.map_cons, List.sum_cons, ← Nat.add_assoc] at hdimensions hbytes hgroups
      rw [countBucketsChecked, countBuckets]
      refine guard_eq_mapError fun _ => guard_eq_mapError fun _ => guard_eq_mapError fun _ => ?_
      rw [addWord_eq_ok (by omega), ok_bind, addWord_eq_ok (by omega), ok_bind,
        addWord_eq_ok (by omega), ok_bind]
      exact bind_eq_mapError fun seen _ => ih hdimensions hbytes hgroups

theorem Tiles.sum_bucketDimension {first : ℕ} {groups : List (List ℕ)} {layouts : List Bucket}
    (h : Tiles first groups layouts) :
    (layouts.map Bucket.bucketDimension).sum = groups.flatten.length := by
  induction h with
  | nil => rfl
  | cons hwidth hcount htail ih =>
      rw [List.map_cons, List.sum_cons, List.flatten_append, List.length_append,
        length_flatten_of_width hwidth, ih]
      rfl

theorem validateLayoutChecked_eq {shape : UnevenShape} {groups : List (List ℕ)}
    {layouts : List Bucket} (htiles : Tiles 0 groups layouts) (hgroups : groups.length ≤ 2 ^ 20)
    (hdimensions : groups.flatten.length ≤ 2 ^ 20) :
    validateLayoutChecked shape groups layouts =
      (validateLayout shape groups layouts).mapError .thrown := by
  obtain ⟨hcounts, hbytes⟩ := htiles.totals
  have hsum := htiles.sum_bucketDimension
  refine guard_eq_mapError fun _ => ?_
  rw [countBucketsChecked_eq (by dsimp only; omega) (by dsimp only; omega) (by dsimp only; omega)]
  refine bind_eq_mapError fun count _ => ?_
  exact guard_eq_mapError fun _ => guard_eq_mapError fun _ => guard_eq_mapError fun _ => rfl

theorem buildBucketsChecked_eq {shape : UnevenShape} {groups : List (List ℕ)}
    (hgroups : groups.length ≤ 2 ^ 20) (hdimensions : groups.flatten.length ≤ 2 ^ 20) :
    buildBucketsChecked shape groups = (buildBuckets shape groups).mapError .thrown := by
  rw [buildBucketsChecked, buildBuckets, cutBucketsChecked_eq (by omega) hdimensions]
  refine bind_eq_mapError fun layouts hcut => ?_
  rw [validateLayoutChecked_eq (cutBuckets_tiles hcut) hgroups hdimensions]
  exact bind_eq_mapError fun _ _ => rfl

theorem readBucketChecked_eq {d M codeSize : ℕ} {layout : Bucket}
    (hdimension : layout.bucketDimension ≤ 2 ^ 20) (input : List UInt8) :
    readBucketChecked io d M codeSize (2 ^ nbits) layout input =
      lift .thrown (readBucket io d M codeSize layout) input := by
  have hcentroids : layout.bucketDimension * 2 ^ nbits < 2 ^ 64 := by
    rw [nbits]
    omega
  apply bind_eq_lift rfl
  intro subspaceDimension _ _
  apply bind_eq_lift rfl
  intro subspaceCount _ _
  apply bind_eq_lift rfl
  intro firstSubspace _ _
  apply bind_eq_lift rfl
  intro codeOffset _ _
  refine guard_eq_lift fun _ => ?_
  apply bind_eq_lift rfl
  intro pq _ _
  rw [ofExcept_bind_eq (mulWord_eq_ok hcentroids)]
  exact guard_eq_lift fun _ => rfl

theorem readBucketsChecked_eq {d M codeSize : ℕ} {layouts : List Bucket}
    (hdimensions : ∀ layout ∈ layouts, layout.bucketDimension ≤ 2 ^ 20) (input : List UInt8) :
    readBucketsChecked io d M codeSize (2 ^ nbits) layouts input =
      lift .thrown (readBuckets io d M codeSize layouts) input := by
  induction layouts generalizing input with
  | nil => rfl
  | cons layout rest ih =>
      obtain ⟨hlayout, hrest⟩ := List.forall_mem_cons.mp hdimensions
      apply bind_eq_lift (readBucketChecked_eq hlayout input)
      intro bucket afterBucket _
      exact bind_eq_lift (ih hrest afterBucket) fun _ _ _ => rfl

/-! ## The one step that fails -/

theorem readSize_split {maximum value : ℕ} {name : String}
    (h : readSize maximum name input = .ok (value, rest)) :
    input = toLittleEndian 8 value ++ rest := by
  obtain ⟨persisted, middle, hpersisted, h⟩ := bind_run_eq_ok.mp h
  obtain ⟨-, h⟩ := guard_run_eq_ok.mp h
  obtain ⟨rfl, rfl⟩ := pure_run_eq_ok.mp h
  exact number_run_split hpersisted

/-- What the constructor accepts is PQ4, of a positive dimension. -/
theorem UnevenShape.create_accepts {d M bits maximum : ℕ} {shape : UnevenShape}
    (h : UnevenShape.create d M bits maximum = .ok shape) : 0 < d ∧ bits = 4 := by
  unfold UnevenShape.create at h
  split at h
  · cases h
  next hd =>
    split at h
    · cases h
    · split at h
      · cases h
      next hbits => exact ⟨Nat.pos_of_ne_zero hd, not_not.mp hbits⟩

/-- A file that begins with a version, a dimension and a subquantizer count the
reader takes, and asks for 64 bits per subquantizer. -/
def AsksFor64Bits (input : List UInt8) : Prop :=
  ∃ d M rest, d ≤ kMaximumPersistedDimension ∧ M ≤ d ∧
    input = toLittleEndian 4 kUnevenPersistenceVersion ++ (toLittleEndian 8 d ++
      (toLittleEndian 8 M ++ (toLittleEndian 8 64 ++ rest)))

/-- On such a file the shift of the constructor is not defined. -/
theorem readUnevenChecked_asks (h : AsksFor64Bits input) :
    readUnevenChecked faiss io input = .error .arithmetic := by
  obtain ⟨d, M, rest, hd, hM, rfl⟩ := h
  have hmaximum : kMaximumPersistedDimension ≤ sizeMax := by decide
  have hversion : Reads (readScalar 4) (toLittleEndian 4 kUnevenPersistenceVersion)
    kUnevenPersistenceVersion := reads_scalar (by decide)
  have hdimension := reads_size "dimension" hd hmaximum
  have hcount := reads_size "subquantizer count" hM (hd.trans hmaximum)
  have hbits := reads_size "bits per subquantizer" (le_refl 64) (by decide)
  rw [readUnevenChecked, lift_bind_run (hversion _), if_neg (not_not.mpr rfl),
    lift_bind_run (hdimension _), lift_bind_run (hcount _), lift_bind_run (hbits _)]
  rfl

/-- On every other file each step is defined, and the read is the one without checks. -/
theorem readUnevenChecked_eq (h : ¬AsksFor64Bits input) :
    readUnevenChecked faiss io input = lift .thrown (readUneven faiss io) input := by
  apply bind_eq_lift rfl
  intro version afterVersion hversion
  refine guard_eq_lift fun hsupported => ?_
  apply bind_eq_lift rfl
  intro d afterD hd
  apply bind_eq_lift rfl
  intro M afterM hM
  apply bind_eq_lift rfl
  intro bits afterBits hbits
  have hamount : bits < 64 := by
    refine lt_of_le_of_ne (readSize_le hbits) fun heq => h ⟨d, M, afterBits, readSize_le hd,
      readSize_le hM, ?_⟩
    rw [number_run_split hversion, readSize_split hd, readSize_split hM, readSize_split hbits,
      not_not.mp hsupported, heq]
  have hdimension : d ≤ 2 ^ 20 := readSize_le hd
  have hgroups : M ≤ 2 ^ 20 := (readSize_le hM).trans hdimension
  -- the constructor: past the shift its checks leave PQ4
  rcases hcreate : UnevenShape.create d M bits 0 with error | constructed
  · have hchecked : createUnevenChecked d M bits 0 = .error (.thrown error) := by
      rw [createUnevenChecked, shiftOne_eq_ok hamount, ok_bind, hcreate]
      rfl
    rw [hchecked]
    rfl
  obtain ⟨hpositive, hfour⟩ := UnevenShape.create_accepts hcreate
  have hchecked : createUnevenChecked d M bits 0 = .ok (constructed, 2 ^ nbits) := by
    rw [createUnevenChecked, shiftOne_eq_ok hamount, ok_bind, hcreate, hfour]
    rfl
  rw [ofExcept_bind_eq hchecked, lift_ofExcept_bind_eq rfl]
  apply bind_eq_lift rfl
  intro maximum afterMaximum _
  apply bind_eq_lift rfl
  intro report afterReport _
  apply bind_eq_lift rfl
  intro verbose afterVerbose _
  apply bind_eq_lift rfl
  intro groupCount afterGroupCount _
  refine guard_eq_lift fun hgroupCount => ?_
  apply bind_eq_lift (readGroupsChecked_eq hpositive hdimension (by omega) afterGroupCount)
  rintro ⟨dimensions, total⟩ afterGroups hread
  obtain ⟨hlength, -, htotal⟩ := readGroups_spec hread
  refine guard_eq_lift fun hcover => ?_
  apply bind_eq_lift (readVectorChecked_eq _ _ hdimension afterGroups)
  intro bitBudgets afterBudgets _
  apply bind_eq_lift (readVectorChecked_eq _ _ hgroups afterBudgets)
  intro loads afterLoads _
  refine guard_eq_lift fun _ => ?_
  apply bind_eq_lift (ofExcept_eq_lift (buildBucketsChecked_eq (by omega) (by omega)) afterLoads)
  intro layouts afterLayouts hbuild
  obtain ⟨layouts', hcut, hvalid⟩ := bind_eq_ok.mp (ofExcept_run_eq_ok.mp hbuild).1
  obtain ⟨_, -, hvalid⟩ := bind_eq_ok.mp hvalid
  obtain rfl := Except.ok.inj hvalid
  have htiles := cutBuckets_tiles hcut
  have hbounded : ∀ layout ∈ layouts', layout.bucketDimension ≤ 2 ^ 20 := by
    intro layout hlayout
    have hsum := List.single_le_sum (fun _ _ => Nat.zero_le _) _
      (List.mem_map_of_mem (f := Bucket.bucketDimension) hlayout)
    rw [htiles.sum_bucketDimension] at hsum
    omega
  apply bind_eq_lift rfl
  intro created afterCreated _
  apply bind_eq_lift rfl
  intro bucketCount afterBucketCount _
  refine guard_eq_lift fun _ => ?_
  apply bind_eq_lift (readBucketsChecked_eq hbounded afterBucketCount)
  intro buckets afterBuckets _
  apply bind_eq_lift (ofExcept_eq_lift (validateLayoutChecked_eq htiles (by omega) (by omega))
    afterBuckets)
  intro _ afterValid _
  rw [ofExcept_bind_eq (countWords_eq_ok (by omega))]
  exact guard_eq_lift fun _ => rfl

/-- The arithmetic of `read` is defined and does not wrap exactly on the files that
do not ask for 64 bits per subquantizer. -/
theorem uneven_read_arithmetic (faiss : Faiss Float32) (io : FaissIo) (input : List UInt8) :
    readUnevenChecked faiss io input ≠ .error .arithmetic ↔ ¬AsksFor64Bits input := by
  constructor
  · intro hdefined hasks
    exact hdefined (readUnevenChecked_asks hasks)
  · intro hasks
    rw [readUnevenChecked_eq hasks, lift]
    cases readUneven faiss io input with
    | error error =>
        intro heq
        cases heq
    | ok result =>
        intro heq
        cases heq

/-- The shift by 64: a file of 28 bytes. -/
theorem uneven_read_shift_undefined :
    readUnevenChecked planarFaiss plainIo
      [1, 0, 0, 0, 2, 0, 0, 0, 0, 0, 0, 0, 2, 0, 0, 0, 0, 0, 0, 0, 64, 0, 0, 0, 0, 0, 0, 0] =
      .error .arithmetic := by
  rfl

end Recast
