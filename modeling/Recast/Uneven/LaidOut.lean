import Recast.Foundation.Segments
import Recast.Uneven.Buckets

/-!
# Laid-out buckets

What `build_buckets` accepts: the buckets lie one after the other in the code
and in the table, and partition the dimensions.
-/

namespace Recast

open Foundation

/-! ## What the layout checks accept -/

theorem cutBuckets_tiles {first : ℕ} {groups : List (List ℕ)} {layouts : List Bucket}
    (h : cutBuckets first groups = .ok layouts) : Tiles first groups layouts := by
  induction hsize : groups.length using Nat.strong_induction_on generalizing groups first layouts with
  | _ size ih =>
  cases groups with
  | nil =>
      rw [cutBuckets] at h
      cases h
      exact .nil first
  | cons group rest =>
      rw [cutBuckets] at h
      split at h
      · cases h
      next heven =>
        obtain ⟨buckets, hcut, h⟩ := bind_eq_ok.mp h
        cases h
        have hsublist := List.dropWhile_sublist
          (fun other : List ℕ => decide (other.length = group.length)) (l := rest)
        have htiles := ih _ (by
          rw [← hsize, List.length_cons]
          exact Nat.lt_succ_of_le hsublist.length_le) hcut rfl
        have hsplit : group :: rest =
            (group :: rest.takeWhile fun other => decide (other.length = group.length)) ++
              rest.dropWhile fun other => decide (other.length = group.length) := by
          rw [List.cons_append, List.takeWhile_append_dropWhile]
        rw [hsplit]
        refine .cons (fun other hother => ?_) (not_not.mp heven) htiles
        rcases List.mem_cons.mp hother with rfl | hother
        · rfl
        · simpa using List.mem_takeWhile_imp hother

theorem markSeen_spec {d : ℕ} {dimensions seen seen' : List ℕ}
    (h : markSeen d dimensions seen = .ok seen') :
    (∀ x ∈ dimensions, x < d) ∧ dimensions.Nodup ∧ (∀ x ∈ dimensions, x ∉ seen) ∧
      ∀ x, x ∈ seen' ↔ x ∈ dimensions ∨ x ∈ seen := by
  induction dimensions generalizing seen with
  | nil =>
      cases h
      simp
  | cons dimension rest ih =>
      rw [markSeen] at h
      split at h
      · cases h
      next hrange =>
        split at h
        · cases h
        next hnew =>
          obtain ⟨hrest, hnodup, hdisjoint, hmem⟩ := ih h
          refine ⟨?_, ?_, ?_, fun x => ?_⟩
          · exact List.forall_mem_cons.mpr ⟨not_le.mp hrange, hrest⟩
          · exact List.nodup_cons.mpr
              ⟨fun hin => hdisjoint dimension hin List.mem_cons_self, hnodup⟩
          · exact List.forall_mem_cons.mpr ⟨hnew, fun x hx hin =>
              hdisjoint x hx (List.mem_cons_of_mem _ hin)⟩
          · rw [hmem, List.mem_cons, List.mem_cons]
            tauto

theorem countBuckets_spec {d : ℕ} {layouts : List Bucket} {count count' : LayoutCount}
    (h : countBuckets d layouts count = .ok count') :
    (∀ x ∈ layouts.flatMap Bucket.dimensions, x < d) ∧
      (layouts.flatMap Bucket.dimensions).Nodup ∧
      (∀ x ∈ layouts.flatMap Bucket.dimensions, x ∉ count.seen) ∧
      count'.dimensionCount = count.dimensionCount + (layouts.map Bucket.bucketDimension).sum := by
  induction layouts generalizing count with
  | nil =>
      cases h
      simp
  | cons layout rest ih =>
      rw [countBuckets] at h
      split at h
      · cases h
      · split at h
        · cases h
        · split at h
          · cases h
          · obtain ⟨seen, hmark, h⟩ := bind_eq_ok.mp h
            obtain ⟨hrange, hnodup, hnew, hmem⟩ := markSeen_spec hmark
            obtain ⟨hrangeRest, hnodupRest, hnewRest, hcount⟩ := ih h
            rw [List.flatMap_cons, List.map_cons, List.sum_cons, hcount]
            refine ⟨?_, ?_, ?_, Nat.add_assoc _ _ _⟩
            · exact List.forall_mem_append.mpr ⟨hrange, hrangeRest⟩
            · refine List.nodup_append'.mpr ⟨hnodup, hnodupRest, fun x hx hrest => ?_⟩
              exact hnewRest x hrest ((hmem x).mpr (.inl hx))
            · refine List.forall_mem_append.mpr ⟨hnew, fun x hx hin => ?_⟩
              exact hnewRest x hx ((hmem x).mpr (.inr hin))

/-- The buckets are contiguous in the code and in the table, and partition the
dimensions. -/
structure LaidOut (shape : UnevenShape) (layouts : List Bucket) : Prop where
  codes : Abut Bucket.codeOffset Bucket.bucketCodeSize 0 layouts
  tables : Abut (fun layout => layout.firstSubspace * 16) (fun layout => 16 * layout.subspaceCount) 0
    layouts
  halves : ∀ layout ∈ layouts, 2 * layout.bucketCodeSize = layout.subspaceCount
  widths : ∀ layout ∈ layouts, layout.bucketDimension = layout.dimensions.length ∧
    layout.bucketDimension = layout.subspaceCount * layout.subspaceDimension
  groups : (layouts.map Bucket.subspaceCount).sum = shape.M
  partition : (layouts.flatMap Bucket.dimensions).Perm (List.range shape.d)

theorem Tiles.laidOut {first : ℕ} {groups : List (List ℕ)} {layouts : List Bucket}
    (h : Tiles first groups layouts) (hfirst : first % 2 = 0) :
    Abut Bucket.codeOffset Bucket.bucketCodeSize (first / 2) layouts ∧
      Abut (fun layout => layout.firstSubspace * 16) (fun layout => 16 * layout.subspaceCount)
        (first * 16) layouts ∧
      ∀ layout ∈ layouts, 2 * layout.bucketCodeSize = layout.subspaceCount ∧
        layout.bucketDimension = layout.dimensions.length ∧
          layout.bucketDimension = layout.subspaceCount * layout.subspaceDimension := by
  induction h with
  | nil => exact ⟨trivial, trivial, by simp⟩
  | @cons first width run rest buckets hwidth hcount htail ih =>
      obtain ⟨hcodes, htables, hlayouts⟩ := ih (by omega)
      have hhalf : first / 2 + run.length / 2 = (first + run.length) / 2 := by omega
      have htable : first * 16 + 16 * run.length = (first + run.length) * 16 := by omega
      refine ⟨⟨rfl, ?_⟩, ⟨rfl, ?_⟩, List.forall_mem_cons.mpr ⟨⟨?_, ?_, ?_⟩, hlayouts⟩⟩
      · simp only [bucketOf]
        rwa [hhalf]
      · simp only [bucketOf]
        rwa [htable]
      · simp only [bucketOf]
        omega
      · exact (length_flatten_of_width hwidth).symm
      · exact Nat.mul_comm _ _

/-- What `build_buckets` accepts is laid out. -/
theorem buildBuckets_laidOut {shape : UnevenShape} {groups : List (List ℕ)} {layouts : List Bucket}
    (h : buildBuckets shape groups = .ok layouts) : LaidOut shape layouts := by
  rw [buildBuckets, bind_eq_ok] at h
  obtain ⟨buckets, hcut, h⟩ := h
  rw [bind_eq_ok] at h
  obtain ⟨_, hvalid, h⟩ := h
  cases h
  have htiles := cutBuckets_tiles hcut
  obtain ⟨hcodes, htables, hlayouts⟩ := htiles.laidOut rfl
  unfold validateLayout at hvalid
  split at hvalid
  · cases hvalid
  next hgroups =>
    obtain ⟨count, hcount, hvalid⟩ := bind_eq_ok.mp hvalid
    split at hvalid
    · cases hvalid
    · split at hvalid
      · cases hvalid
      next hdimensions =>
        obtain ⟨hrange, hnodup, -, htotal⟩ := countBuckets_spec hcount
        refine ⟨hcodes, htables, fun layout hlayout => (hlayouts layout hlayout).1,
          fun layout hlayout => (hlayouts layout hlayout).2,
          htiles.totals.1.trans (not_not.mp hgroups), ?_⟩
        -- as many distinct dimensions below `d` as there are
        have hsubset : layouts.flatMap Bucket.dimensions ⊆ List.range shape.d :=
          fun x hx => List.mem_range.mpr (hrange x hx)
        refine (List.subperm_of_subset hnodup hsubset).perm_of_length_le ?_
        rw [List.length_range, List.length_flatMap,
          ← List.map_congr_left fun layout hlayout => (hlayouts layout hlayout).2.1]
        rw [Nat.zero_add] at htotal
        exact ((not_not.mp hdimensions).symm.trans htotal).le

end Recast
