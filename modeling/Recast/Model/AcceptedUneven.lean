import Recast.Model.RoundTrip
import Recast.Uneven.CodingBounds
import Recast.Model.SavedModel

/-!
# The uneven quantizers `read` accepts

Whatever bytes `UnevenProductQuantizer::read` is given, the quantizer it returns
has a valid layout: the checks on the groups, those of the rebuilt buckets and
those on the codebooks say together what training establishes.
-/

namespace Recast

open Foundation Foundation.Reader

variable {faiss : Faiss Float32} {io : FaissIo} {input rest : List UInt8}

/-! ## What each part of the reader checks -/

theorem readSize_le {maximum value : ℕ} {name : String}
    (h : readSize maximum name input = .ok (value, rest)) : value ≤ maximum := by
  obtain ⟨persisted, middle, -, h⟩ := bind_run_eq_ok.mp h
  obtain ⟨hchecked, h⟩ := guard_run_eq_ok.mp h
  obtain ⟨rfl, -⟩ := pure_run_eq_ok.mp h
  exact Nat.le_of_not_lt (not_or.mp hchecked).1

/-- Every group is nonempty, and their sizes are added up. -/
theorem readGroups_spec {d count total total' : ℕ} {groups : List (List ℕ)}
    (h : readGroups d count total input = .ok ((groups, total'), rest)) :
    groups.length = count ∧ (∀ group ∈ groups, group ≠ []) ∧
      total' = total + groups.flatten.length := by
  induction count generalizing total input rest groups with
  | zero =>
      obtain ⟨heq, -⟩ := pure_run_eq_ok.mp h
      cases heq
      exact ⟨rfl, by simp, rfl⟩
  | succ count ih =>
      rw [readGroups] at h
      obtain ⟨persisted, afterVector, -, h⟩ := bind_run_eq_ok.mp h
      obtain ⟨group, afterGroup, -, h⟩ := bind_run_eq_ok.mp h
      obtain ⟨hchecked, h⟩ := guard_run_eq_ok.mp h
      obtain ⟨⟨groups', last⟩, afterGroups, hgroups, h⟩ := bind_run_eq_ok.mp h
      obtain ⟨heq, -⟩ := pure_run_eq_ok.mp h
      cases heq
      obtain ⟨hcount, hnonempty, htotal⟩ := ih hgroups
      refine ⟨congrArg (· + 1) hcount, ?_, ?_⟩
      · exact List.forall_mem_cons.mpr ⟨(not_or.mp hchecked).1, hnonempty⟩
      · rw [htotal, List.flatten_cons, List.length_append, Nat.add_assoc]

/-- The codebook of a bucket has the bucket's shape. -/
theorem readBucket_spec {d M codeSize : ℕ} {layout : Bucket} {bucket : CodedBucket Float32}
    (hhalf : 2 * layout.bucketCodeSize = layout.subspaceCount)
    (h : readBucket io d M codeSize layout input = .ok (bucket, rest)) :
    bucket.layout = layout ∧
      bucket.pq.Shaped bucket.layout.bucketDimension bucket.layout.subspaceCount nbits := by
  obtain ⟨subspaceDimension, _, -, h⟩ := bind_run_eq_ok.mp h
  obtain ⟨subspaceCount, _, -, h⟩ := bind_run_eq_ok.mp h
  obtain ⟨firstSubspace, _, -, h⟩ := bind_run_eq_ok.mp h
  obtain ⟨codeOffset, _, -, h⟩ := bind_run_eq_ok.mp h
  obtain ⟨-, h⟩ := guard_run_eq_ok.mp h
  obtain ⟨pq, _, -, h⟩ := bind_run_eq_ok.mp h
  obtain ⟨hpq, h⟩ := guard_run_eq_ok.mp h
  obtain ⟨rfl, -⟩ := pure_run_eq_ok.mp h
  simp only [not_or, not_not] at hpq
  obtain ⟨hd, hM, hnbits, hksub, hcodeSize, hcentroids⟩ := hpq
  refine ⟨rfl, hd, hM, hnbits, hksub, ?_, hcentroids⟩
  change pq.codeSize = (4 * layout.subspaceCount + 7) / 8
  omega

theorem readBuckets_spec {d M codeSize : ℕ} {layouts : List Bucket}
    {buckets : List (CodedBucket Float32)}
    (hhalves : ∀ layout ∈ layouts, 2 * layout.bucketCodeSize = layout.subspaceCount)
    (h : readBuckets io d M codeSize layouts input = .ok (buckets, rest)) :
    buckets.map CodedBucket.layout = layouts ∧ ∀ bucket ∈ buckets,
      bucket.pq.Shaped bucket.layout.bucketDimension bucket.layout.subspaceCount nbits := by
  induction layouts generalizing input rest buckets with
  | nil =>
      obtain ⟨rfl, -⟩ := pure_run_eq_ok.mp h
      exact ⟨rfl, by simp⟩
  | cons layout layouts ih =>
      obtain ⟨hhalf, hrest⟩ := List.forall_mem_cons.mp hhalves
      obtain ⟨bucket, _, hbucket, h⟩ := bind_run_eq_ok.mp h
      obtain ⟨buckets', _, hbuckets, h⟩ := bind_run_eq_ok.mp h
      obtain ⟨rfl, -⟩ := pure_run_eq_ok.mp h
      obtain ⟨rfl, hpq⟩ := readBucket_spec hhalf hbucket
      obtain ⟨hlayouts, hpqs⟩ := ih hrest hbuckets
      exact ⟨by rw [List.map_cons, hlayouts], List.forall_mem_cons.mpr ⟨hpq, hpqs⟩⟩

theorem UnevenShape.create_eq_ok {d M bits maximum : ℕ} {shape : UnevenShape}
    (h : UnevenShape.create d M bits maximum = .ok shape) : shape.d = d ∧ shape.M = M := by
  unfold UnevenShape.create at h
  repeat' split at h
  all_goals cases h
  exact ⟨rfl, rfl⟩

/-! ## What the checks say together -/

/-- The dimensions of the buckets are those of the groups. -/
theorem Tiles.dimensions_eq {first : ℕ} {groups : List (List ℕ)} {layouts : List Bucket}
    (h : Tiles first groups layouts) : layouts.flatMap Bucket.dimensions = groups.flatten := by
  induction h with
  | nil => rfl
  | cons hwidth hcount htail ih => rw [List.flatMap_cons, List.flatten_append, ih, bucketOf]

/-- What `read` returns could have been trained. -/
theorem readUneven_learned {quantizer : UnevenProductQuantizer Float32 Float}
    (h : readUneven faiss io input = .ok (quantizer, rest)) : quantizer.Learned := by
  unfold readUneven at h
  obtain ⟨version, _, -, h⟩ := bind_run_eq_ok.mp h
  obtain ⟨-, h⟩ := guard_run_eq_ok.mp h
  obtain ⟨loadedD, _, -, h⟩ := bind_run_eq_ok.mp h
  obtain ⟨loadedM, _, -, h⟩ := bind_run_eq_ok.mp h
  obtain ⟨loadedNbits, _, -, h⟩ := bind_run_eq_ok.mp h
  obtain ⟨constructed, _, hcreate, h⟩ := bind_run_eq_ok.mp h
  obtain ⟨hcreate, -⟩ := ofExcept_run_eq_ok.mp hcreate
  obtain ⟨rfl, rfl⟩ := UnevenShape.create_eq_ok hcreate
  obtain ⟨maximum, _, -, h⟩ := bind_run_eq_ok.mp h
  obtain ⟨report, _, -, h⟩ := bind_run_eq_ok.mp h
  obtain ⟨verbose, _, -, h⟩ := bind_run_eq_ok.mp h
  obtain ⟨groupCount, _, -, h⟩ := bind_run_eq_ok.mp h
  obtain ⟨hgroupCount, h⟩ := guard_run_eq_ok.mp h
  obtain ⟨⟨dimensions, total⟩, _, hgroups, h⟩ := bind_run_eq_ok.mp h
  obtain ⟨-, h⟩ := guard_run_eq_ok.mp h
  obtain ⟨bitBudgets, _, -, h⟩ := bind_run_eq_ok.mp h
  obtain ⟨loads, _, -, h⟩ := bind_run_eq_ok.mp h
  obtain ⟨hsizes, h⟩ := guard_run_eq_ok.mp h
  obtain ⟨layouts, _, hbuild, h⟩ := bind_run_eq_ok.mp h
  obtain ⟨created, _, -, h⟩ := bind_run_eq_ok.mp h
  obtain ⟨bucketCount, _, -, h⟩ := bind_run_eq_ok.mp h
  obtain ⟨-, h⟩ := guard_run_eq_ok.mp h
  obtain ⟨buckets, _, hbuckets, h⟩ := bind_run_eq_ok.mp h
  obtain ⟨_, _, -, h⟩ := bind_run_eq_ok.mp h
  obtain ⟨hconsistent, h⟩ := guard_run_eq_ok.mp h
  obtain ⟨rfl, -⟩ := pure_run_eq_ok.mp h
  obtain ⟨hbuild, -⟩ := ofExcept_run_eq_ok.mp hbuild
  obtain ⟨hcount, hnonempty, -⟩ := readGroups_spec hgroups
  rw [not_or, not_not, not_not] at hsizes
  have hlaidOut := buildBuckets_laidOut hbuild
  obtain ⟨hlayouts, hpq⟩ := readBuckets_spec hlaidOut.halves hbuckets
  obtain ⟨layouts', hcut, hvalid⟩ := bind_eq_ok.mp hbuild
  obtain ⟨_, -, hvalid⟩ := bind_eq_ok.mp hvalid
  obtain rfl := Except.ok.inj hvalid
  exact {
    htrained := rfl
    hgroups := hcount.trans (not_not.mp hgroupCount)
    hnonempty := hnonempty
    hpartition := (cutBuckets_tiles hcut).dimensions_eq ▸ hlaidOut.partition
    hbuild := hlayouts.symm ▸ hbuild
    hpq := hpq
    hbudgets := hsizes.1
    hloads := hsizes.2
    hconsistent := Bool.eq_true_of_not_eq_false hconsistent }

/-- A valid uneven quantizer. The groups partition the dimensions, the buckets are
even runs of groups of one width that tile groups and code bytes, each codebook has
the shape of its bucket, and the loads are those of the budgets. -/
structure UnevenProductQuantizer.Valid (quantizer : UnevenProductQuantizer Float32 Float) :
    Prop where
  heven : quantizer.shape.M % 2 = 0
  hgroups : quantizer.subspaceDimensions.length = quantizer.shape.M
  hnonempty : ∀ group ∈ quantizer.subspaceDimensions, group ≠ []
  hpartition : quantizer.subspaceDimensions.flatten.Perm (List.range quantizer.shape.d)
  htiles : Tiles 0 quantizer.subspaceDimensions (quantizer.buckets.map CodedBucket.layout)
  hoffsets : ∀ before bucket after, quantizer.buckets.map CodedBucket.layout =
    before ++ bucket :: after →
      bucket.firstSubspace = (before.map Bucket.subspaceCount).sum ∧
        bucket.codeOffset = (before.map Bucket.bucketCodeSize).sum
  htotals : ((quantizer.buckets.map CodedBucket.layout).map Bucket.subspaceCount).sum =
      quantizer.shape.M ∧
    ((quantizer.buckets.map CodedBucket.layout).map Bucket.bucketCodeSize).sum =
      quantizer.shape.M / 2
  hcounts : ∀ bucket ∈ quantizer.buckets, bucket.layout.subspaceCount % 2 = 0
  hcodebooks : ∀ bucket ∈ quantizer.buckets,
    bucket.pq.Shaped bucket.layout.bucketDimension bucket.layout.subspaceCount nbits
  hbudgets : quantizer.idealBitBudgets.length = quantizer.shape.d
  hloads : quantizer.groupBitLoads.length = quantizer.shape.M
  hconsistent : ∀ group < quantizer.shape.M,
    almostEqual
      (recomputedLoad quantizer.idealBitBudgets (quantizer.subspaceDimensions.getD group []))
      (quantizer.groupBitLoads.getD group 0) = true

theorem UnevenProductQuantizer.Learned.valid {quantizer : UnevenProductQuantizer Float32 Float}
    (h : quantizer.Learned) : quantizer.Valid := by
  have hM := quantizer.shape.hevenGroups
  have hlaidOut := buildBuckets_laidOut h.hbuild
  obtain ⟨layouts, hcut, hvalid⟩ := bind_eq_ok.mp h.hbuild
  obtain ⟨_, -, hvalid⟩ := bind_eq_ok.mp hvalid
  obtain rfl := Except.ok.inj hvalid
  have htiles := cutBuckets_tiles hcut
  obtain ⟨hcounts, hbytes⟩ := htiles.totals
  rw [h.hgroups] at hcounts hbytes
  exact {
    heven := hM
    hgroups := h.hgroups
    hnonempty := h.hnonempty
    hpartition := h.hpartition
    htiles := htiles
    hoffsets := by
      intro before bucket after hsplit
      obtain ⟨hfirst, hoffset, -⟩ := (hsplit ▸ htiles).offsets rfl
      exact ⟨hfirst.trans (Nat.zero_add _), hoffset.trans (Nat.zero_add _)⟩
    htotals := ⟨hcounts, by omega⟩
    hcounts := by
      intro bucket hbucket
      have hhalf := hlaidOut.halves _ (List.mem_map_of_mem hbucket)
      omega
    hcodebooks := h.hpq
    hbudgets := h.hbudgets
    hloads := h.hloads
    hconsistent := by
      intro group hgroup
      rw [← h.hgroups] at hgroup
      exact List.all_eq_true.mp h.hconsistent group (List.mem_range.mpr hgroup) }

/-- Every index the coding functions use is inside its buffer: on buffers of the
sizes the header asks for, no checked access fails. -/
def UnevenProductQuantizer.StaysInside (quantizer : UnevenProductQuantizer Float32 Float) : Prop :=
  ∀ (buffers : FaissBuffers Float32) (n : ℕ) (x : List Float32) (codes : List UInt8),
    n * quantizer.shape.d ≤ x.length → n * (quantizer.shape.M / 2) ≤ codes.length →
    (∃ codes', quantizer.computeCodesInto buffers x codes n = .ok (some codes') ∧
      codes'.length = codes.length) ∧
    (∃ x', quantizer.decodeInto buffers codes x n = .ok (some x') ∧ x'.length = x.length) ∧
    ∀ row table : List Float32, quantizer.shape.d ≤ row.length →
      quantizer.shape.M * 2 ^ nbits ≤ table.length →
      ∃ table', quantizer.innerProdTableInto buffers row table = .ok (some table') ∧
        table'.length = table.length

/-- `read` accepts only valid layouts, on which no index leaves its buffer. -/
theorem uneven_read_valid {quantizer : UnevenProductQuantizer Float32 Float}
    (h : readUneven faiss io input = .ok (quantizer, rest)) :
    quantizer.Valid ∧ quantizer.StaysInside := by
  have hlearned := readUneven_learned h
  have hfits := (buildBuckets_laidOut hlearned.hbuild).fits hlearned.hpq
  refine ⟨hlearned.valid, ?_⟩
  intro buffers n x codes hx hcodes
  refine ⟨?_, ?_, fun row table hrow htable => ?_⟩
  · exact UnevenProductQuantizer.computeCodesInto_inside hlearned.htrained hfits hx hcodes
  · exact UnevenProductQuantizer.decodeInto_inside hlearned.htrained hfits hcodes hx
  · exact UnevenProductQuantizer.innerProdTableInto_inside hlearned.htrained hfits hrow htable

/-- Two groups of one dimension each, in one bucket. -/
def twoGroups : UnevenProductQuantizer Float32 Float where
  shape := .pair
  reportLayoutAfterTraining := false
  verbose := false
  isTrained := true
  subspaceDimensions := [[0], [1]]
  idealBitBudgets := [4, 4]
  groupBitLoads := [4, 4]
  buckets := [⟨bucketOf 0 1 [[0], [1]], ⟨2, 2, 4, 16, 1, List.replicate 32 0⟩⟩]

theorem twoGroups_learned : twoGroups.Learned where
  htrained := rfl
  hgroups := rfl
  hnonempty := by decide
  hpartition := by decide
  hbuild := by
    have hcut : cutBuckets 0 [[0], [1]] = .ok [bucketOf 0 1 [[0], [1]]] := by simp [cutBuckets]
    rw [buildBuckets, show twoGroups.subspaceDimensions = [[0], [1]] from rfl, hcut]
    rfl
  hpq := by
    intro bucket hbucket
    obtain rfl := List.mem_singleton.mp hbucket
    exact ⟨rfl, rfl, rfl, rfl, rfl, List.length_replicate⟩
  hbudgets := rfl
  hloads := rfl
  hconsistent := by decide +kernel

/-- What `write` makes of two groups is read, and accepted as valid. -/
theorem uneven_read_valid_two_groups : twoGroups.Valid ∧ twoGroups.StaysInside :=
  uneven_read_valid ((@reads_uneven planarFaiss _ plainIo_inverts _ twoGroups_learned _ rfl
    (by decide) (by decide)).2 [])

end Recast
